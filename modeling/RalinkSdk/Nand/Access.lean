import RalinkSdk.Nand.BadBlock

/-!
# Accesses that do not fail

What the functions of the driver do when no transfer of the controller fails, whatever it answers
otherwise.
-/

namespace RalinkSdk.Nand

open Lib List Function Nat

/-! ## Addresses -/

namespace ChipMode

variable (m : ChipMode)

theorem pagesize_cases : m.pagesize = 512 ∨ m.pagesize = 2048 := by
  cases m
  · exact .inl rfl
  · exact .inl rfl
  · exact .inr rfl
  · exact .inr rfl

theorem pagesize_pos : 0 < m.pagesize := by
  exact Nat.two_pow_pos _

theorem numpage_mul_pagesize : m.numpage * m.pagesize = m.chipsize := by
  unfold numpage pagesize chipsize
  rw [← pow_add]
  congr 1
  cases m <;> rfl

variable {m}

theorem pageOf_of_lt {addr : Nat} (h : addr < m.chipsize) : m.pageOf addr = addr / m.pagesize := by
  rw [pageOf, mod_eq_of_lt h]

theorem pageOf_lt (addr : Nat) : m.pageOf addr < m.numpage := by
  apply Nat.div_lt_of_lt_mul
  rw [Nat.mul_comm, numpage_mul_pagesize]
  exact mod_lt _ (Nat.two_pow_pos _)

theorem enable_of_lt {addr : Nat} (h : addr < m.chipsize) : ¬ m.chipsize ≤ addr % 2 ^ 32 := by
  have hchip := RaNandChip.chipsize_le m
  rw [mod_eq_of_lt (by omega)]
  exact not_le.mpr h

end ChipMode

/-- A column of an ECC byte. -/
def IsEcc (m : ChipMode) (col : Nat) : Prop := ∃ place ∈ m.eccPlaces, m.eccCol place = col

/-- A column of a free OOB byte. -/
def IsFree (m : ChipMode) (col : Nat) : Prop :=
  ∃ area ∈ oobfree, m.pagesize + area.1 ≤ col ∧ col < m.pagesize + area.1 + area.2

theorem IsEcc.pagesize_le {m : ChipMode} {col : Nat} (h : IsEcc m col) : m.pagesize ≤ col := by
  obtain ⟨place, -, rfl⟩ := h
  unfold ChipMode.eccCol
  omega

theorem IsFree.pagesize_le {m : ChipMode} {col : Nat} (h : IsFree m col) : m.pagesize ≤ col := by
  obtain ⟨area, -, hle, -⟩ := h
  omega

theorem isFree_isEcc_iff {m : ChipMode} {col : Nat} :
    IsFree m col ∧ IsEcc m col ↔ m.isNandPage2048 = true ∧ col = m.pagesize + 8 := by
  cases m <;>
    simp [IsFree, IsEcc, oobfree, ChipMode.eccPlaces, ChipMode.eccCol, ChipMode.eccWords,
      ChipMode.isNandPage2048, ChipMode.pagesize, ChipMode.pageShift, ChipMode.oobsize,
      ChipMode.oobShift, ChipMode.eccOffset, range_succ]
  all_goals omega

namespace RaNandChip

variable {c : RaNandChip}

/-- The ECC registers are clear and the chip is not protected. -/
def Willing (c : RaNandChip) : Prop := ∀ n, (c.answers n).wp = false ∧ ∀ w, (c.answers n).ecc w = 0

/-- The driver with a controller that gives these answers. -/
def withAnswers (c : RaNandChip) (answers : Nat → NfcAnswer) : RaNandChip :=
  { c with answers := answers }

/-- The answers of a chip that goes along, with ECC bytes that are all clear. -/
def meekAnswers : Nat → NfcAnswer := fun _ =>
  { fail := false, noise := fun _ _ => 0, ecc := fun _ => 0, wp := false }

/-! ## Reading -/

/-- The bytes of page `page` with its OOB. -/
def readBuffers (c : RaNandChip) (page : Nat) : Bytes :=
  memcpy c.buffers 0 (c.flash page) (c.mode.pagesize + c.mode.oobsize)

theorem readBuffers_of_lt {page col : Nat} (h : col < c.mode.pagesize + c.mode.oobsize) :
    c.readBuffers page col = c.flash page col := by
  rw [readBuffers, memcpy_of_mem (Nat.zero_le col) (by omega), Nat.sub_zero]

theorem nfcReadPage_quiet (hquiet : c.Quiet) (page : Nat) (ecc : Bool) :
    c.nfcReadPage page ecc = ({ c.accessed with buffers := c.readBuffers page },
      if ecc && !c.eccMatches (c.readBuffers page) c.answer.ecc then .error .ebadmsg
      else .ok ()) := by
  have hok : c.answer.fail = false := hquiet c.accesses
  simp only [nfcReadPage, pullPage, hok, Bool.not_false, Bool.not_true, Bool.false_eq_true, if_false]
  by_cases hbad : (ecc && !c.eccMatches (c.readBuffers page) c.answer.ecc) = true
  · rw [if_pos hbad]
    exact if_pos hbad
  · rw [if_neg hbad]
    exact if_neg hbad

/-- The ECC registers of every access are those of every page. -/
def Verifies (c : RaNandChip) : Prop :=
  ∀ n page, c.eccMatches (c.flash page) (c.answers n).ecc = true

theorem eccCol_lt {m : ChipMode} {place : Nat × Nat} (h : place ∈ m.eccPlaces) :
    m.eccCol place < m.pagesize + m.oobsize := by
  obtain ⟨w, i⟩ := place
  simp only [ChipMode.eccPlaces, mem_flatMap, mem_map, mem_range, Prod.mk.injEq] at h
  obtain ⟨w', hw, i', hi, rfl, rfl⟩ := h
  cases m <;>
    simp [ChipMode.eccCol, ChipMode.eccWords, ChipMode.isNandPage2048, ChipMode.pagesize,
      ChipMode.pageShift, ChipMode.oobsize, ChipMode.oobShift, ChipMode.eccOffset] at hw ⊢
  all_goals omega

theorem eccMatches_readBuffers (page : Nat) (regs : Nat → BitVec 32) :
    c.eccMatches (c.readBuffers page) regs = c.eccMatches (c.flash page) regs := by
  have hbyte : ∀ place ∈ c.mode.eccPlaces,
      c.readBuffers page (c.mode.eccCol place) = c.flash page (c.mode.eccCol place) :=
    fun place hplace => readBuffers_of_lt (eccCol_lt hplace)
  unfold eccMatches
  congr 1
  · congr 1
    rw [Bool.eq_iff_iff, all_eq_true, all_eq_true]
    exact forall₂_congr fun place hplace => by rw [hbyte place hplace]
  · rw [Bool.eq_iff_iff, all_eq_true, all_eq_true]
    exact forall₂_congr fun place hplace => by rw [hbyte place hplace]

theorem readTwice_quiet (hquiet : c.Quiet) (page : Nat) (ecc : Bool) :
    ∃ k ret, c.readTwice page ecc =
        ({ c with accesses := k, buffers := c.readBuffers page }, ret) ∧
      (ret = .ok () ∨ ret = .error .ebadmsg ∧ ¬ c.Verifies) := by
  unfold readTwice
  rw [nfcReadPage_quiet hquiet]
  split
  · next heq =>
    obtain ⟨rfl, -⟩ := Prod.mk.inj heq
    exact ⟨_, _, rfl, .inl rfl⟩
  · next c₁ e heq =>
    obtain ⟨rfl, hret⟩ := Prod.mk.inj heq
    have hfails : ¬ c.Verifies := by
      intro hall
      rw [eccMatches_readBuffers, answer, hall, Bool.not_true, Bool.and_false] at hret
      cases hret
    have hquiet₁ : Quiet { c.accessed with buffers := c.readBuffers page } := hquiet
    have hagain : readBuffers { c.accessed with buffers := c.readBuffers page } page =
        c.readBuffers page := by
      funext col
      show memcpy (c.readBuffers page) 0 (c.flash page) (c.mode.pagesize + c.mode.oobsize) col = _
      rcases Nat.lt_or_ge col (c.mode.pagesize + c.mode.oobsize) with hcol | hcol
      · rw [memcpy_of_mem (Nat.zero_le col) (by omega), Nat.sub_zero, readBuffers_of_lt hcol]
      · rw [memcpy_of_ge (by omega)]
    rw [nfcReadPage_quiet hquiet₁, hagain]
    refine ⟨_, _, rfl, ?_⟩
    split
    · exact .inr ⟨rfl, hfails⟩
    · exact .inl rfl

/-- **A round of a read**: the bytes are those of the page, and an error ends the loop only behind
    data bytes. -/
theorem readRound_quiet (hquiet : c.Quiet) {addr : Nat} (ops : MtdOobOps) (left : Left)
    (bytes : List (BitVec 8)) (haddr : addr < c.mode.chipsize)
    (hoob : (if ops.oobbuf.isSome && left.ooblen != 0 then
      nandReadOobBuf c.mode (c.readBuffers (c.mode.pageOf addr)) left.ooblen ops.mode ops.ooboffs
      else some []) = some bytes) :
    let n := dataLen c.mode ops addr left.datalen
    let dat := (range n).map fun i =>
      c.readBuffers (c.mode.pageOf addr) (addr % c.mode.pagesize + i)
    ∃ c' ret, readRound ops c addr left =
        (c', ((left.oobDone bytes.length).dataDone n).got dat bytes, ret) ∧
      c'.mode = c.mode ∧ c'.flash = c.flash ∧ c'.answers = c.answers ∧
      (ret = none ∨ n ≠ 0 ∧ ret = some (.error .ebadmsg) ∧ ¬ c.Verifies) := by
  intro n dat
  have hena : c.nfcEnableChip addr true = (c, true) := by
    rw [nfcEnableChip, if_neg (ChipMode.enable_of_lt haddr), if_pos rfl]
  obtain ⟨k, ret, htwice, hret⟩ := readTwice_quiet hquiet (c.mode.pageOf addr)
    (decide (ops.mode = .auto))
  unfold readRound
  rw [hena]
  dsimp only
  rw [htwice]
  dsimp only
  -- the tag of the block is all that an error changes
  have htag : ∃ bbt, (if ret = .ok () then
      { c with accesses := k, buffers := c.readBuffers (c.mode.pageOf addr) }
      else nandBbtSet { c with accesses := k, buffers := c.readBuffers (c.mode.pageOf addr) }
        (addr / 2 ^ c.mode.eraseShift) .bad) =
      { c with bbt := bbt, accesses := k, buffers := c.readBuffers (c.mode.pageOf addr) } := by
    split
    · exact ⟨c.bbt, rfl⟩
    · exact ⟨_, rfl⟩
  obtain ⟨bbt, htag⟩ := htag
  have hnoEio : ret ≠ .error .eio := by
    rcases hret with rfl | ⟨rfl, -⟩
    · exact fun h => by cases h
    · exact fun h => by cases h
  rw [htag, if_neg hnoEio]
  dsimp only
  rw [hoob]
  dsimp only
  by_cases hstop : n ≠ 0 ∧ ret ≠ .ok ()
  · rw [if_pos hstop]
    obtain rfl | ⟨rfl, hfails⟩ := hret
    · exact absurd rfl hstop.2
    · exact ⟨_, _, rfl, rfl, rfl, rfl, .inr ⟨hstop.1, rfl, hfails⟩⟩
  · rw [if_neg hstop]
    exact ⟨_, _, rfl, rfl, rfl, rfl, .inl rfl⟩

/-! ## Writing -/

theorem nfcEnableChip_write {addr : Nat} (haddr : addr < c.mode.chipsize) :
    c.nfcEnableChip addr false = (c.accessed, !c.answer.wp) := by
  rw [nfcEnableChip, if_neg (ChipMode.enable_of_lt haddr), if_neg Bool.false_ne_true]

theorem nfcReadOob_quiet (hquiet : c.Quiet) {page offs len : Nat}
    (hbug : c.oobBug page offs len = false) :
    c.nfcReadOob page offs len = (c.accessed, .ok (true, fun i => c.oobByte page (offs + i))) := by
  have hok : c.answer.fail = false := hquiet c.accesses
  simp only [nfcReadOob, hbug, hok, Bool.false_eq_true, if_false]

/-- What a page program with ECC leaves on the page. -/
structure Pushed (c : RaNandChip) (page : Nat) (c' : RaNandChip) : Prop where
  mode_eq : c'.mode = c.mode
  answers_eq : c'.answers = c.answers
  other : ∀ p, p ≠ page → c'.flash p = c.flash p
  beyond : ∀ col, c.mode.pagesize + c.mode.oobsize ≤ col → c'.flash page col = c.flash page col
  plain : ∀ col, col < c.mode.pagesize + c.mode.oobsize → ¬ IsEcc c.mode col →
    c'.flash page col = c.flash page col &&&
      update c.buffers c.mode.badblockCol 0xff col
  ecc : ∀ col, IsEcc c.mode col → ∃ n, c'.flash page col =
    c.flash page col &&& (c.answers n).noise page col
  buffers : ∀ col, col ≠ c.mode.badblockCol → c'.buffers col = c.buffers col

theorem contains_eccCol {m : ChipMode} {col : Nat} :
    (m.eccPlaces.map m.eccCol).contains col = true ↔ IsEcc m col := by
  rw [contains_iff_mem, mem_map]
  rfl

theorem pushPage_quiet (hquiet : c.Quiet) (page : Nat) :
    let c₁ : RaNandChip := { c with buffers := update c.buffers c.mode.badblockCol 0xff }
    (c₁.pushPage page c₁.buffers true).2 = true ∧
      Pushed c page (c₁.pushPage page c₁.buffers true).1 := by
  intro c₁
  have hok : c₁.answer.fail = false := hquiet c.accesses
  refine ⟨by simp [pushPage, hok], rfl, rfl, ?_, ?_, ?_, ?_, ?_⟩
  · intro p hp
    funext col
    simp only [pushPage, program, accessed, hp, c₁, false_and, if_false]
    exact BitVec.and_allOnes
  · intro col hcol
    have hsize : ¬ col < c.mode.pagesize + c.mode.oobsize := not_lt.mpr hcol
    simp only [pushPage, program, accessed, hsize, c₁, and_false, if_false]
    exact BitVec.and_allOnes
  · intro col hcol hecc
    rw [← contains_eccCol, Bool.not_eq_true] at hecc
    simp only [pushPage, program, accessed, hok, c₁]
    rw [if_pos ⟨trivial, hcol⟩, hecc]
    rfl
  · intro col hecc
    have hcol : col < c.mode.pagesize + c.mode.oobsize := by
      obtain ⟨place, hplace, rfl⟩ := hecc
      exact eccCol_lt hplace
    refine ⟨c.accesses, ?_⟩
    simp only [pushPage, program, accessed, hok, c₁]
    rw [if_pos ⟨trivial, hcol⟩, contains_eccCol.mpr hecc]
    rfl
  · intro col hcol
    exact update_of_ne hcol _ _

/-- **A page program** that is verified, or else reports an error. -/
theorem nfcWritePage_quiet (hquiet : c.Quiet) (page : Nat) {ecc : Bool} (hecc : ecc = true) :
    ∃ c' ret, c.nfcWritePage page true ecc = (c', ret) ∧
      (ret = .ok () ∧ Pushed c page c' ∨ (∃ e, ret = .error e) ∧ ¬ c.Willing) := by
  subst hecc
  obtain ⟨hsent, hpushed⟩ := pushPage_quiet hquiet page
  unfold nfcWritePage
  dsimp only at hsent hpushed ⊢
  generalize hpush : pushPage { c with buffers := update c.buffers c.mode.badblockCol 0xff }
    page (update c.buffers c.mode.badblockCol 0xff) true = r at hsent hpushed ⊢
  obtain ⟨c₂, ok⟩ := r
  obtain rfl : ok = true := hsent
  have hquiet₂ : (c₂.answer).fail = false := by
    rw [answer, hpushed.answers_eq]
    exact hquiet _
  have hverify : c₂.verifyWritten page =
      (c₂.accessed, c₂.accessed.eccMatches (c₂.flash page) c₂.answer.ecc) := by
    simp only [verifyWritten, pullPage, hquiet₂, Bool.not_false, Bool.false_eq_true, if_false]
  simp only [if_true, hverify]
  cases hmatch : c₂.accessed.eccMatches (c₂.flash page) c₂.answer.ecc with
  | true =>
    exact ⟨_, _, rfl, .inl ⟨rfl, hpushed.mode_eq, hpushed.answers_eq, hpushed.other,
      hpushed.beyond, hpushed.plain, hpushed.ecc, hpushed.buffers⟩⟩
  | false =>
    have hunwilling : ¬ c.Willing := by
      intro hwilling
      have hzero : ∀ w, c₂.answer.ecc w = 0 := by
        rw [answer, hpushed.answers_eq]
        exact (hwilling _).2
      simp [eccMatches, hzero] at hmatch
    dsimp only
    split
    · exact ⟨_, _, rfl, .inr ⟨⟨_, rfl⟩, hunwilling⟩⟩
    · split
      · exact ⟨_, _, rfl, .inr ⟨⟨_, rfl⟩, hunwilling⟩⟩
      · exact ⟨_, _, rfl, .inr ⟨⟨_, rfl⟩, hunwilling⟩⟩

end RaNandChip

end RalinkSdk.Nand
