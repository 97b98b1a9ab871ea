import RalinkSdk.Nand.Access

/-!
# What a write changes

The driver programs whole pages from its page buffer.  Of the first and the last page of a write
only the bytes of the request are put there: the others are what an earlier operation has left,
and they are programmed with them.
-/

namespace RalinkSdk.Nand

open Lib Function Nat List

namespace RaNandChip

def dataByte (c : RaNandChip) (a : Nat) : BitVec 8 :=
  c.flash (a / c.mode.pagesize) (a % c.mode.pagesize)

variable {c : RaNandChip}

/-! ## One page -/

theorem oobBug_page (c : RaNandChip) (page : Nat) : c.oobBug page 0 c.mode.oobsize = false := by
  have hpos : 0 < c.mode.oobsize := Nat.two_pow_pos _
  have hpage := lt_div_mul_add (a := page) c.mode.pagesPerblock_pos
  simp only [oobBug, Nat.zero_add, Nat.div_self hpos, Bool.or_eq_false_iff, decide_eq_false_iff_not,
    not_le, not_lt, Nat.add_mul, Nat.one_mul]
  exact ⟨hpos, by omega⟩

theorem preloadOob_plain (hquiet : c.Quiet) (page len : Nat) (buf : Bytes) :
    c.preloadOob page c.mode.pagesize c.mode.oobsize (plainOps len buf) =
      ({ c.accessed with
        buffers := memcpy c.buffers c.mode.pagesize (fun i => c.oobByte page (0 + i))
          c.mode.oobsize }, .ok ()) := by
  unfold preloadOob
  rw [nfcReadOob_quiet hquiet (oobBug_page c page)]
  rfl

/-- What a round of a write leaves: the page is programmed with the buffer, which has the bytes of
    the round, and its OOB with itself. -/
structure PageWritten (c : RaNandChip) (addr n : Nat) (bytes : Bytes) (c' : RaNandChip) :
    Prop where
  mode_eq : c'.mode = c.mode
  answers_eq : c'.answers = c.answers
  other : ∀ p, p ≠ c.mode.pageOf addr → c'.flash p = c.flash p
  data : ∀ col < c.mode.pagesize, c'.flash (c.mode.pageOf addr) col =
    c.flash (c.mode.pageOf addr) col &&& memcpy c.buffers (addr % c.mode.pagesize) bytes n col
  spare : ∀ col, c.mode.pagesize ≤ col → ¬ IsEcc c.mode col →
    c'.flash (c.mode.pageOf addr) col = c.flash (c.mode.pageOf addr) col
  ecc : ∀ col, IsEcc c.mode col → ∃ k, c'.flash (c.mode.pageOf addr) col =
    c.flash (c.mode.pageOf addr) col &&& (c.answers k).noise (c.mode.pageOf addr) col
  buffers : ∀ col < c.mode.pagesize,
    c'.buffers col = memcpy c.buffers (addr % c.mode.pagesize) bytes n col

theorem pageWritten_of_pushed {addr n : Nat} (bytes : Bytes) {c' : RaNandChip} {page k : Nat}
    (hpage : c.mode.pageOf addr = page) (hn : addr % c.mode.pagesize + n ≤ c.mode.pagesize)
    (h : Pushed { c with
      accesses := k
      buffers := memcpy (memcpy c.buffers c.mode.pagesize (fun i => c.oobByte page (0 + i))
        c.mode.oobsize) (addr % c.mode.pagesize) bytes n } page c') :
    PageWritten c addr n bytes c' := by
  subst hpage
  have hbad : ∀ col < c.mode.pagesize, col ≠ c.mode.badblockCol := by
    intro col hcol
    unfold ChipMode.badblockCol
    omega
  have hbuf : ∀ col < c.mode.pagesize, memcpy (memcpy c.buffers c.mode.pagesize
      (fun i => c.oobByte (c.mode.pageOf addr) (0 + i)) c.mode.oobsize) (addr % c.mode.pagesize)
        bytes n col = memcpy c.buffers (addr % c.mode.pagesize) bytes n col := by
    intro col hcol
    simp only [memcpy]
    split
    · rfl
    · rw [if_neg (by omega)]
  refine ⟨h.mode_eq, h.answers_eq, h.other, ?_, ?_, h.ecc, ?_⟩
  · intro col hcol
    have hnot : ¬ IsEcc c.mode col := fun hecc => absurd hecc.pagesize_le (not_le.mpr hcol)
    rw [h.plain col (Nat.lt_add_right _ hcol) hnot, update_of_ne (hbad col hcol)]
    exact congrArg _ (hbuf col hcol)
  · intro col hcol hnot
    rcases Nat.lt_or_ge col (c.mode.pagesize + c.mode.oobsize) with hlt | hge
    · rw [h.plain col hlt hnot]
      by_cases hcol' : col = c.mode.badblockCol
      · rw [hcol', update_self]
        exact BitVec.and_allOnes
      · have hi : col - c.mode.pagesize < c.mode.oobsize := by omega
        rw [update_of_ne hcol']
        dsimp only
        rw [memcpy_of_ge (by omega), memcpy_of_mem hcol hlt, Nat.zero_add, oobByte,
          div_eq_of_lt hi, mod_eq_of_lt hi, Nat.add_zero, Nat.add_sub_cancel' hcol]
        exact BitVec.and_self
    · exact h.beyond col hge
  · intro col hcol
    rw [h.buffers col (hbad col hcol)]
    exact hbuf col hcol

variable {addr : Nat} {left : Left}

/-- **A round of a write**, which ends with an error only on a chip that does not go along. -/
theorem writeRound_plain (hquiet : c.Quiet) (len : Nat) (buf : Bytes)
    (haddr : addr < c.mode.chipsize) (hleft : left.datalen ≠ 0) :
    let n := min left.datalen (c.mode.pagesize - addr % c.mode.pagesize)
    ∃ c' left' ret, writeRound (plainOps len buf) c addr left = (c', left', ret) ∧
      ((∃ e, ret = some (.error e)) ∧ ¬ c.Willing ∨
        ret = none ∧ left' = left.dataDone n ∧
          PageWritten c addr n (fun i => buf (left.retlen + i)) c') := by
  intro n
  have hpos : 0 < c.mode.pagesize - addr % c.mode.pagesize :=
    Nat.sub_pos_of_lt (mod_lt _ c.mode.pagesize_pos)
  have hn : n ≠ 0 := by omega
  unfold writeRound
  rw [nfcEnableChip_write haddr]
  cases hwp : c.answer.wp with
  | true =>
    refine ⟨_, _, _, rfl, .inl ⟨⟨_, rfl⟩, ?_⟩⟩
    intro hwilling
    rw [answer, (hwilling _).1] at hwp
    cases hwp
  | false =>
    have hecc : (decide True && decide (n ≠ 0)) = true := by
      simp [hn]
    obtain ⟨c', ret, hwrite, hret⟩ := nfcWritePage_quiet (c := { c with
      accesses := c.accesses + 1 + 1
      buffers := memcpy (memcpy c.buffers c.mode.pagesize
        (fun i => c.oobByte (c.mode.pageOf addr) (0 + i)) c.mode.oobsize)
          (addr % c.mode.pagesize) (fun i => buf (left.retlen + i)) n }) hquiet (c.mode.pageOf addr)
        hecc
    simp only [Bool.not_false]
    rw [preloadOob_plain (c := c.accessed) hquiet]
    simp only [fillOob, plainOps, fillData]
    split
    · next c₁ e heq =>
      obtain ⟨rfl, rfl⟩ := Prod.mk.inj (heq.symm.trans hwrite)
      obtain ⟨hok, -⟩ | ⟨-, hunwilling⟩ := hret
      · cases hok
      · exact ⟨_, _, _, rfl, .inl ⟨⟨e, rfl⟩, hunwilling⟩⟩
    · next c₁ heq =>
      obtain ⟨rfl, rfl⟩ := Prod.mk.inj (heq.symm.trans hwrite)
      obtain ⟨-, hpushed⟩ | ⟨⟨e, he⟩, -⟩ := hret
      · have hlen : addr % c.mode.pagesize + n ≤ c.mode.pagesize := by omega
        have hwritten := pageWritten_of_pushed (fun i => buf (left.retlen + i)) rfl hlen
          hpushed
        exact ⟨_, _, _, rfl, .inr ⟨rfl, rfl, hwritten.mode_eq, hwritten.answers_eq,
          hwritten.other, hwritten.data, hwritten.spare, hwritten.ecc, hwritten.buffers⟩⟩
      · cases he

/-! ## All pages -/

/-- The byte that stands in the buffer at the place of address `a`, if `a` is no address of the
    request: one of the page before, or of an earlier operation. -/
def stale (c : RaNandChip) (start : Nat) (buf : Bytes) (a : Nat) : BitVec 8 :=
  if start + c.mode.pagesize ≤ a then buf (a - c.mode.pagesize - start)
  else c.buffers (a % c.mode.pagesize)

/-- The byte that address `a` of a page of the request is programmed with. -/
def image (c : RaNandChip) (start len : Nat) (buf : Bytes) : Bytes := fun a =>
  if start ≤ a ∧ a < start + len then buf (a - start) else c.stale start buf a

/-- The pages from `first` up to `last` have been programmed: their data bytes with the image, ECC
    bytes with what the controller has made of them. -/
structure Programmed (c c' : RaNandChip) (image : Bytes) (first last : Nat) : Prop where
  other : ∀ p, ¬ (first ≤ p ∧ p < last) → c'.flash p = c.flash p
  data : ∀ p, first ≤ p → p < last → ∀ col < c.mode.pagesize,
    c'.flash p col = c.flash p col &&& image (p * c.mode.pagesize + col)
  spare : ∀ p col, c.mode.pagesize ≤ col → ¬ IsEcc c.mode col → c'.flash p col = c.flash p col
  ecc : ∀ p, first ≤ p → p < last → ∀ col, IsEcc c.mode col →
    ∃ k, c'.flash p col = c.flash p col &&& (c.answers k).noise p col

theorem Programmed.refl (c : RaNandChip) (image : Bytes) (first : Nat) :
    Programmed c c image first first where
  other _ _ := rfl
  data _ hle hlt := absurd hlt (not_lt.mpr hle)
  spare _ _ _ _ := rfl
  ecc _ hle hlt := absurd hlt (not_lt.mpr hle)

theorem Programmed.next {c₀ c c' : RaNandChip} {image bytes : Bytes} {first addr n : Nat}
    (h : Programmed c₀ c image first (c.mode.pageOf addr)) (hmode : c.mode = c₀.mode)
    (hanswers : c.answers = c₀.answers) (hfirst : first ≤ c.mode.pageOf addr)
    (hw : PageWritten c addr n bytes c')
    (hfill : ∀ col < c.mode.pagesize, memcpy c.buffers (addr % c.mode.pagesize) bytes n col =
      image (c.mode.pageOf addr * c.mode.pagesize + col)) :
    Programmed c₀ c' image first (c.mode.pageOf addr + 1) := by
  have hpage : c.flash (c.mode.pageOf addr) = c₀.flash (c.mode.pageOf addr) :=
    h.other _ fun hin => absurd hin.2 (lt_irrefl _)
  refine ⟨?_, ?_, ?_, ?_⟩
  · intro p hp
    have hne : p ≠ c.mode.pageOf addr := by omega
    rw [hw.other p hne]
    exact h.other p fun hin => hp ⟨hin.1, lt_succ_of_lt hin.2⟩
  · intro p hle hlt col hcol
    by_cases hp : p = c.mode.pageOf addr
    · subst hp
      rw [← hmode] at hcol ⊢
      rw [hw.data col hcol, hpage, hfill col hcol]
    · rw [hw.other p hp]
      exact h.data p hle (by omega) col hcol
  · intro p col hcol hecc
    rw [← h.spare p col hcol hecc]
    by_cases hp : p = c.mode.pageOf addr
    · subst hp
      rw [← hmode] at hcol hecc
      exact hw.spare col hcol hecc
    · rw [hw.other p hp]
  · intro p hle hlt col hecc
    by_cases hp : p = c.mode.pageOf addr
    · subst hp
      rw [← hmode] at hecc
      obtain ⟨k, hk⟩ := hw.ecc col hecc
      exact ⟨k, by rw [hk, hpage, hanswers]⟩
    · rw [hw.other p hp]
      exact h.ecc p hle (by omega) col hecc

/-- A write at address `addr`: the pages before are programmed, and the buffer has what the image
    has outside of the request. -/
structure Writing (c₀ : RaNandChip) (start len : Nat) (buf : Bytes) (c : RaNandChip) (addr : Nat)
    (left : Left) : Prop where
  mode_eq : c.mode = c₀.mode
  answers_eq : c.answers = c₀.answers
  programmed : Programmed c₀ c (c₀.image start len buf) (start / c₀.mode.pagesize)
    (addr / c₀.mode.pagesize)
  buffers : addr < start + len → ∀ a, a / c₀.mode.pagesize = addr / c₀.mode.pagesize →
    ¬ (start ≤ a ∧ a < start + len) → c.buffers (a % c₀.mode.pagesize) = c₀.stale start buf a
  start_le : start ≤ addr
  near : addr < start + len + c₀.mode.pagesize
  aligned : addr = start ∨ addr % c₀.mode.pagesize = 0
  ooblen : left.ooblen = 0
  datalen : left.datalen = start + len - addr
  retlen : left.retlen + left.datalen = len

variable {start len : Nat} {buf : Bytes}

theorem writing_start (c : RaNandChip) (start : Nat) {len : Nat} (buf : Bytes) :
    Writing c start len buf c start (plainOps len buf).start where
  mode_eq := rfl
  answers_eq := rfl
  programmed := .refl c _ _
  buffers _ a ha hout := by
    have hbefore : ¬ start + c.mode.pagesize ≤ a := by
      intro hle
      have hdiv := Nat.div_le_div_right (c := c.mode.pagesize) hle
      rw [add_div_right _ c.mode.pagesize_pos, ha] at hdiv
      omega
    exact (if_neg hbefore).symm
  start_le := Nat.le_refl start
  near := by
    have hpos := c.mode.pagesize_pos
    omega
  aligned := .inl rfl
  ooblen := rfl
  datalen := (Nat.add_sub_cancel_left start len).symm
  retlen := Nat.zero_add len

variable {c₀ : RaNandChip}

theorem Writing.filled
    (h : Writing c₀ start len buf c addr left) (hleft : addr < start + len) {a : Nat}
    (ha : a / c₀.mode.pagesize = addr / c₀.mode.pagesize) :
    memcpy c.buffers (addr % c₀.mode.pagesize) (fun i => buf (left.retlen + i))
      (min left.datalen (c₀.mode.pagesize - addr % c₀.mode.pagesize)) (a % c₀.mode.pagesize) =
        c₀.image start len buf a := by
  have hold := h.buffers hleft a ha
  have hle := h.start_le
  have haligned := h.aligned
  have hdatalen := h.datalen
  have hretlen := h.retlen
  simp only [memcpy, image]
  by_cases hin : start ≤ a ∧ a < start + len
  · rw [if_pos hin]
    rcases c₀.mode.pagesize_cases with hps | hps <;>
    · rw [hps] at ha haligned ⊢
      rw [if_pos (by omega)]
      congr 1
      omega
  · rw [if_neg hin, ← hold hin]
    rcases c₀.mode.pagesize_cases with hps | hps <;>
    · rw [hps] at ha haligned ⊢
      rw [if_neg (by omega)]

/-- **A round** of the write. -/
theorem Writing.next {c₀ c' : RaNandChip}
    (h : Writing c₀ start len buf c addr left) (hin : start + len ≤ c₀.mode.chipsize)
    (hleft : addr < start + len)
    (hw : PageWritten c addr (min left.datalen (c.mode.pagesize - addr % c.mode.pagesize))
      (fun i => buf (left.retlen + i)) c') :
    Writing c₀ start len buf c' ((addr / c₀.mode.pagesize + 1) * c₀.mode.pagesize)
      (left.dataDone (min left.datalen (c.mode.pagesize - addr % c.mode.pagesize))) := by
  have hpos := c₀.mode.pagesize_pos
  have hpage : c.mode.pageOf addr = addr / c₀.mode.pagesize := by
    rw [h.mode_eq, ChipMode.pageOf_of_lt (by omega)]
  have hnext : (addr / c₀.mode.pagesize + 1) * c₀.mode.pagesize / c₀.mode.pagesize =
      addr / c₀.mode.pagesize + 1 := Nat.mul_div_cancel _ hpos
  have hdiv := div_add_mod' addr c₀.mode.pagesize
  have hmod := mod_lt addr hpos
  have hmul := Nat.add_one_mul (addr / c₀.mode.pagesize) c₀.mode.pagesize
  have hle := h.start_le
  have hdatalen := h.datalen
  have hretlen := h.retlen
  rw [h.mode_eq] at hw ⊢
  refine ⟨hw.mode_eq.trans h.mode_eq, hw.answers_eq.trans h.answers_eq, ?_, ?_, by omega, by omega,
    .inr (mul_mod_left _ _), h.ooblen, ?_, ?_⟩
  · have hprog := h.programmed
    rw [hnext, ← hpage]
    rw [← hpage] at hprog
    refine hprog.next h.mode_eq h.answers_eq ?_ hw ?_
    · rw [hpage]
      exact Nat.div_le_div_right hle
    · intro col hcol
      rw [h.mode_eq] at hcol
      rw [hpage, h.mode_eq]
      have hcolumn := h.filled hleft (a := addr / c₀.mode.pagesize * c₀.mode.pagesize + col)
        (by rw [Nat.mul_comm, mul_add_div hpos, div_eq_of_lt hcol, Nat.add_zero])
      rwa [mul_add_mod_self_right, mod_eq_of_lt hcol] at hcolumn
  · -- the buffer keeps the page before
    intro hmore a ha hout
    rw [hnext] at ha
    have hdiv' := div_add_mod' a c₀.mode.pagesize
    have hmod' := mod_lt a hpos
    rw [ha] at hdiv'
    have hage : c₀.mode.pagesize ≤ a := by omega
    have hbefore : (a - c₀.mode.pagesize) / c₀.mode.pagesize = addr / c₀.mode.pagesize := by
      have hsub := div_eq_sub_div hpos hage
      omega
    have hsame : (a - c₀.mode.pagesize) % c₀.mode.pagesize = a % c₀.mode.pagesize :=
      (mod_eq_sub_mod hage).symm
    have hcolumn := h.filled hleft hbefore
    rw [hsame] at hcolumn
    have hkept := hw.buffers (a % c₀.mode.pagesize) (by rwa [h.mode_eq])
    rw [h.mode_eq, hcolumn] at hkept
    rw [hkept, image, stale, stale, hsame]
    by_cases hfar : start + c₀.mode.pagesize ≤ a
    · rw [if_pos hfar, if_pos (by omega)]
    · rw [if_neg hfar, if_neg (by omega), if_neg (by omega)]
  · show left.datalen - _ = _
    omega
  · show left.retlen + _ + (left.datalen - _) = len
    omega

theorem Writing.last
    (h : Writing c₀ start len buf c addr left) (hlen : 0 < len) (hdone : left.datalen = 0) :
    addr / c₀.mode.pagesize = (start + len - 1) / c₀.mode.pagesize + 1 := by
  have hle := h.start_le
  have hnear := h.near
  have haligned := h.aligned
  have hdatalen := h.datalen
  rcases c₀.mode.pagesize_cases with hps | hps <;>
  · rw [hps] at hnear haligned ⊢
    omega

theorem Writing.round {c₀ c' : RaNandChip} {left left' : Left}
    {ret : Option (Except NandError Unit)} (h : Writing c₀ start len buf c addr left)
    (hquiet : c₀.Quiet) (hin : start + len ≤ c₀.mode.chipsize)
    (hleft : ¬ (left.datalen = 0 ∧ left.ooblen = 0))
    (heq : writeRound (plainOps len buf) c addr left = (c', left', ret)) :
    addr < start + len ∧ ((∃ e, ret = some (.error e)) ∧ ¬ c₀.Willing ∨
      ret = none ∧ Writing c₀ start len buf c' ((addr / c₀.mode.pagesize + 1) * c₀.mode.pagesize)
        left') := by
  have hdata : left.datalen ≠ 0 := fun hzero => hleft ⟨hzero, h.ooblen⟩
  have hless : addr < start + len := by
    have hdatalen := h.datalen
    omega
  have haddr : addr < c.mode.chipsize := by
    rw [h.mode_eq]
    omega
  have hquiet' : c.Quiet := fun n => by rw [h.answers_eq]; exact hquiet n
  have hwilling : c.Willing ↔ c₀.Willing := by rw [Willing, Willing, h.answers_eq]
  obtain ⟨c₁, left₁, ret₁, hround, hcases⟩ := writeRound_plain hquiet' len buf haddr
    hdata
  obtain ⟨rfl, hrest⟩ := Prod.mk.inj (hround.symm.trans heq)
  obtain ⟨rfl, rfl⟩ := Prod.mk.inj hrest
  refine ⟨hless, ?_⟩
  obtain ⟨herror, hunwilling⟩ | ⟨hnone, rfl, hwritten⟩ := hcases
  · exact .inl ⟨herror, fun hw => hunwilling (hwilling.mpr hw)⟩
  · exact .inr ⟨hnone, h.next hin hless hwritten⟩

/-- **The pages of a write** are programmed with the image, unless the chip does not go along. -/
theorem writeLoop_programs (hquiet : c.Quiet) (hlen : 0 < len) (hin : start + len ≤ c.mode.chipsize)
    (buf : Bytes) :
    let r := pageLoop (writeRound (plainOps len buf)) (c.mode.numpage - c.mode.pageOf start - 1) c
      start (plainOps len buf).start
    (∃ e, r.2.1 = .error e) ∧ ¬ c.Willing ∨
      r.2.1 = .ok () ∧ r.1.mode = c.mode ∧ Programmed c r.1 (c.image start len buf)
        (start / c.mode.pagesize) ((start + len - 1) / c.mode.pagesize + 1) := by
  have hchip := c.mode.numpage_mul_pagesize
  have hnum : ∀ addr < start + len, addr / c.mode.pagesize < c.mode.numpage := fun addr haddr =>
    Nat.div_lt_of_lt_mul (by rw [Nat.mul_comm, hchip]; omega)
  have hfirst : c.mode.pageOf start = start / c.mode.pagesize := ChipMode.pageOf_of_lt (by omega)
  have hend : ∀ {c' : RaNandChip} {addr : Nat} {left : Left}, Writing c start len buf c' addr left →
      left.datalen = 0 → c'.mode = c.mode ∧ Programmed c c' (c.image start len buf)
        (start / c.mode.pagesize) ((start + len - 1) / c.mode.pagesize + 1) := by
    intro c' addr left h hdone
    exact ⟨h.mode_eq, h.last hlen hdone ▸ h.programmed⟩
  apply pageLoop_rule
    (fun rest c' addr left => Writing c start len buf c' addr left ∧
      (addr < start + len → addr / c.mode.pagesize + rest + 1 = c.mode.numpage))
    (fun r => (∃ e, r.2.1 = .error e) ∧ ¬ c.Willing ∨
      r.2.1 = .ok () ∧ r.1.mode = c.mode ∧ Programmed c r.1 (c.image start len buf)
        (start / c.mode.pagesize) ((start + len - 1) / c.mode.pagesize + 1))
  · rintro rest c' addr left ⟨h, -⟩ ⟨hdone, -⟩
    exact .inr ⟨rfl, hend h hdone⟩
  · rintro rest c₁ addr left c' left' ret ⟨h, -⟩ hleft heq
    obtain ⟨-, ⟨⟨e, he⟩, hunwilling⟩ | ⟨hnone, -⟩⟩ := h.round hquiet hin hleft heq
    · exact .inl ⟨⟨e, Option.some.inj he⟩, hunwilling⟩
    · cases hnone
  · rintro rest c₁ addr left c' left' ⟨h, hrest⟩ hleft heq
    obtain ⟨hless, ⟨⟨e, he⟩, -⟩ | ⟨-, hnext⟩⟩ := h.round hquiet hin hleft heq
    · cases he
    · have hpage : c'.mode.pageOf addr = addr / c.mode.pagesize := by
        rw [hnext.mode_eq, ChipMode.pageOf_of_lt (by omega)]
      rw [hpage, hnext.mode_eq]
      refine ⟨hnext, fun _ => ?_⟩
      have hcount := hrest hless
      rw [Nat.mul_div_cancel _ c.mode.pagesize_pos]
      omega
  · rintro c₁ addr left c' left' ⟨h, hrest⟩ hleft heq
    obtain ⟨hless, ⟨⟨e, he⟩, -⟩ | ⟨-, hnext⟩⟩ := h.round hquiet hin hleft heq
    · cases he
    · -- the last page of the chip is the last one of the request
      have hcount := hrest hless
      have hdone : left'.datalen = 0 := by
        rw [hnext.datalen]
        rw [show addr / c.mode.pagesize + 1 = c.mode.numpage by omega, hchip]
        omega
      rw [if_pos ⟨hdone, hnext.ooblen⟩]
      exact .inr ⟨rfl, hend hnext hdone⟩
  · refine ⟨writing_start c start buf, fun hless => ?_⟩
    have hlt := hnum start hless
    rw [hfirst]
    omega

/-! ## Reading back -/

/-- A read at address `addr`: the bytes before are there. -/
structure Reading (c₀ : RaNandChip) (start len : Nat) (c : RaNandChip) (addr : Nat) (left : Left) :
    Prop where
  mode_eq : c.mode = c₀.mode
  flash_eq : c.flash = c₀.flash
  answers_eq : c.answers = c₀.answers
  ooblen : left.ooblen = 0
  start_le : start ≤ addr
  datalen : left.datalen = start + len - addr
  dat : left.dat = (range (len - left.datalen)).map fun i => c₀.dataByte (start + i)

theorem Reading.verifies_iff (h : Reading c₀ start len c addr left) : c.Verifies ↔ c₀.Verifies := by
  unfold Verifies eccMatches
  rw [h.mode_eq, h.flash_eq, h.answers_eq]

theorem Reading.round {c₀ c' : RaNandChip} {left left' : Left}
    {ret : Option (Except NandError Unit)} {bytes : Bytes} (h : Reading c₀ start len c addr left)
    (hquiet : c₀.Quiet) (hin : start + len ≤ c₀.mode.chipsize)
    (hleft : ¬ (left.datalen = 0 ∧ left.ooblen = 0))
    (heq : readRound (plainOps len bytes) c addr left = (c', left', ret)) :
    addr < start + len ∧ (ret = none ∧ Reading c₀ start len c'
        ((addr / c₀.mode.pagesize + 1) * c₀.mode.pagesize) left' ∨
      (∃ e, ret = some (.error e)) ∧ ¬ c₀.Verifies) := by
  have hless : addr < start + len := by
    have hdata : left.datalen ≠ 0 := fun hzero => hleft ⟨hzero, h.ooblen⟩
    have hdatalen := h.datalen
    omega
  have haddr : addr < c.mode.chipsize := by
    rw [h.mode_eq]
    omega
  have hquiet' : c.Quiet := fun n => by rw [h.answers_eq]; exact hquiet n
  obtain ⟨c₁, ret₁, hround, hmode, hflash, hanswers, hret⟩ := readRound_quiet hquiet'
    (plainOps len bytes) left [] haddr rfl
  obtain ⟨rfl, hrest⟩ := Prod.mk.inj (hround.symm.trans heq)
  obtain ⟨rfl, rfl⟩ := Prod.mk.inj hrest
  refine ⟨hless, ?_⟩
  have hdiv := div_add_mod' addr c₀.mode.pagesize
  have hmod := mod_lt addr c₀.mode.pagesize_pos
  have hmul := Nat.add_one_mul (addr / c₀.mode.pagesize) c₀.mode.pagesize
  have hle := h.start_le
  have hdatalen := h.datalen
  have hbyte : ∀ i, addr % c₀.mode.pagesize + i < c₀.mode.pagesize →
      c.readBuffers (addr / c₀.mode.pagesize) (addr % c₀.mode.pagesize + i) =
        c₀.dataByte (addr + i) := by
    intro i hi
    have hsplit : addr + i =
        c₀.mode.pagesize * (addr / c₀.mode.pagesize) + (addr % c₀.mode.pagesize + i) := by
      rw [Nat.mul_comm]
      omega
    rw [readBuffers_of_lt (by rw [h.mode_eq]; omega), h.flash_eq, dataByte, hsplit,
      mul_add_div c₀.mode.pagesize_pos, div_eq_of_lt hi, mul_add_mod_self_left,
      mod_eq_of_lt hi, Nat.add_zero]
  obtain hnone | ⟨-, herror, hfails⟩ := hret
  · refine .inl ⟨hnone, hmode.trans h.mode_eq, hflash.trans h.flash_eq,
      hanswers.trans h.answers_eq, h.ooblen, by omega, ?_, ?_⟩
    · show left.datalen - min left.datalen (c.mode.pagesize - addr % c.mode.pagesize) = _
      rw [h.mode_eq]
      omega
    · show left.dat ++ (range (min left.datalen (c.mode.pagesize - addr % c.mode.pagesize))).map
          (fun i => c.readBuffers (c.mode.pageOf addr) (addr % c.mode.pagesize + i)) =
        (range (len - (left.datalen -
          min left.datalen (c.mode.pagesize - addr % c.mode.pagesize)))).map
            fun i => c₀.dataByte (start + i)
      rw [ChipMode.pageOf_of_lt haddr, h.mode_eq]
      have hsplit : len - (left.datalen -
          min left.datalen (c₀.mode.pagesize - addr % c₀.mode.pagesize)) =
          (len - left.datalen) + min left.datalen (c₀.mode.pagesize - addr % c₀.mode.pagesize) := by
        omega
      rw [hsplit, range_add, map_append, List.map_map, ← h.dat]
      congr 1
      apply map_congr_left
      intro i hi
      have hrange := mem_range.mp hi
      rw [hbyte i (by omega)]
      show c₀.dataByte (addr + i) = c₀.dataByte (start + (len - left.datalen + i))
      congr 1
      omega
  · exact .inr ⟨⟨_, herror⟩, fun hall => hfails (h.verifies_iff.mpr hall)⟩

/-- **A read** returns the bytes on flash, and reports an error only if the ECC registers do not
    agree with the pages. -/
theorem ramtdNandRead_quiet (hquiet : c.Quiet) (start len : Nat)
    (hin : start + len ≤ c.mode.chipsize) : ((c.ramtdNandRead start len).2.1 = .ok () →
      (c.ramtdNandRead start len).2.2 = (range len).map fun i => c.dataByte (start + i)) ∧
    (c.Verifies → (c.ramtdNandRead start len).2.1 = .ok ()) := by
  unfold ramtdNandRead
  rw [if_neg (not_lt.mpr hin)]
  by_cases hlen : len = 0
  · rw [if_pos hlen, hlen]
    exact ⟨fun _ => rfl, fun _ => rfl⟩
  rw [if_neg hlen]
  have hchip := c.mode.numpage_mul_pagesize
  have hfirst : c.mode.pageOf start = start / c.mode.pagesize := ChipMode.pageOf_of_lt (by omega)
  have hnum : start / c.mode.pagesize < c.mode.numpage := by
    rw [← hfirst]
    exact ChipMode.pageOf_lt start
  have hend : ∀ {c' : RaNandChip} {addr : Nat} {left : Left}, Reading c start len c' addr left →
      left.datalen = 0 → left.dat = (range len).map fun i => c.dataByte (start + i) := by
    intro c' addr left h hdone
    rw [h.dat, hdone, Nat.sub_zero]
  apply pageLoop_rule
    (fun rest c' addr left => Reading c start len c' addr left ∧
      (addr < start + len → addr / c.mode.pagesize + rest + 1 = c.mode.numpage))
    (fun r => (r.2.1 = .ok () → r.2.2.dat = (range len).map fun i => c.dataByte (start + i)) ∧
      (c.Verifies → r.2.1 = .ok ()))
  · rintro rest c' addr left ⟨h, -⟩ ⟨hdone, -⟩
    exact ⟨fun _ => hend h hdone, fun _ => rfl⟩
  · rintro rest c₁ addr left c' left' ret ⟨h, -⟩ hleft heq
    obtain ⟨-, ⟨hnone, -⟩ | ⟨⟨e, he⟩, hfails⟩⟩ := h.round hquiet hin hleft heq
    · cases hnone
    · obtain rfl := Option.some.inj he
      refine ⟨fun hok => ?_, fun hall => absurd hall hfails⟩
      cases hok
  · rintro rest c₁ addr left c' left' ⟨h, hrest⟩ hleft heq
    obtain ⟨hless, ⟨-, hnext⟩ | ⟨⟨e, he⟩, -⟩⟩ := h.round hquiet hin hleft heq
    · have hpage : c'.mode.pageOf addr = addr / c.mode.pagesize := by
        rw [hnext.mode_eq, ChipMode.pageOf_of_lt (by omega)]
      rw [hpage, hnext.mode_eq]
      refine ⟨hnext, fun _ => ?_⟩
      have hcount := hrest hless
      rw [Nat.mul_div_cancel _ c.mode.pagesize_pos]
      omega
    · cases he
  · rintro c₁ addr left c' left' ⟨h, hrest⟩ hleft heq
    obtain ⟨hless, ⟨-, hnext⟩ | ⟨⟨e, he⟩, -⟩⟩ := h.round hquiet hin hleft heq
    · -- the last page of the chip is the last one of the request
      have hcount := hrest hless
      have hdone : left'.datalen = 0 := by
        rw [hnext.datalen]
        rw [show addr / c.mode.pagesize + 1 = c.mode.numpage by omega, hchip]
        omega
      rw [if_pos ⟨hdone, hnext.ooblen⟩]
      exact ⟨fun _ => hend hnext hdone, fun _ => rfl⟩
    · cases he
  · refine ⟨⟨rfl, rfl, rfl, rfl, Nat.le_refl start, (Nat.add_sub_cancel_left start len).symm, ?_⟩,
      fun hless => ?_⟩
    · show [] = (range (len - len)).map _
      rw [Nat.sub_self]
      rfl
    · rw [hfirst]
      omega

/-! ## The request and nothing else -/

/-- With any controller whose transfers do not fail, a read that reports no error returns the
    bytes, and it reports none if the ECC registers agree with the pages. -/
def ReadsBack (c : RaNandChip) (start len : Nat) (bytes : List (BitVec 8)) : Prop :=
  ∀ answers, (c.withAnswers answers).Quiet →
    let r := (c.withAnswers answers).ramtdNandRead start len
    (r.2.1 = .ok () → r.2.2 = bytes) ∧ ((c.withAnswers answers).Verifies → r.2.1 = .ok ())

/-- The range has the bytes, which can be read, and the other data bytes and the free OOB bytes
    are what they were. -/
structure OnlyAsked (c c' : RaNandChip) (start len : Nat) (buf : Bytes) : Prop where
  data : ∀ a, c'.dataByte a =
    if start ≤ a ∧ a < start + len then buf (a - start) else c.dataByte a
  spare : ∀ p col, IsFree c.mode col → c'.flash p col = c.flash p col
  reads : ReadsBack c' start len ((range len).map buf)

/-- With any controller whose transfers do not fail, a write that reports no error changes only
    what it was asked to. -/
def WritesOnlyAsked (c : RaNandChip) (start len : Nat) (buf : Bytes) : Prop :=
  ∀ answers, (c.withAnswers answers).Quiet →
    ((c.withAnswers answers).ramtdNandWrite start len buf).2.1 = .ok () →
      OnlyAsked c ((c.withAnswers answers).ramtdNandWrite start len buf).1 start len buf

/-- A page with a byte of the request. -/
def Touched (m : ChipMode) (start len p : Nat) : Prop := ∃ i < len, (start + i) / m.pagesize = p

/-- On the pages of the request the bytes that are left in the buffer clear no bit outside of the
    range, and on large pages the free byte that is also an ECC byte has no bit to clear. -/
structure Harmless (c : RaNandChip) (start len : Nat) (buf : Bytes) : Prop where
  data : ∀ a, Touched c.mode start len (a / c.mode.pagesize) → ¬ (start ≤ a ∧ a < start + len) →
    c.dataByte a &&& c.stale start buf a = c.dataByte a
  spare : c.mode.isNandPage2048 = true → ∀ p, Touched c.mode start len p →
    c.flash p (c.mode.pagesize + 8) = 0

theorem touched_iff {m : ChipMode} {p : Nat} (hlen : 0 < len) : Touched m start len p ↔
    start / m.pagesize ≤ p ∧ p < (start + len - 1) / m.pagesize + 1 := by
  constructor
  · rintro ⟨i, hi, rfl⟩
    exact ⟨Nat.div_le_div_right (by omega), lt_succ_of_le (Nat.div_le_div_right (by omega))⟩
  · rintro ⟨hfirst, hlast⟩
    -- the first byte of the page, or of the request
    refine ⟨max start (p * m.pagesize) - start, ?_, ?_⟩
    all_goals
      rcases m.pagesize_cases with hps | hps <;>
      · rw [hps] at hfirst hlast ⊢
        omega

theorem ramtdNandWrite_programs (hquiet : c.Quiet) (hlen : 0 < len)
    (hin : start + len ≤ c.mode.chipsize) (buf : Bytes) :
    let r := c.ramtdNandWrite start len buf
    (∃ e, r.2.1 = .error e) ∧ ¬ c.Willing ∨
      r.2.1 = .ok () ∧ r.1.mode = c.mode ∧ Programmed c r.1 (c.image start len buf)
        (start / c.mode.pagesize) ((start + len - 1) / c.mode.pagesize + 1) := by
  have hpages := writeLoop_programs hquiet hlen hin buf
  have hdata : ¬ ((plainOps len buf).start.datalen = 0 ∧ (plainOps len buf).start.ooblen ≠ 0) :=
    fun h => hlen.ne' h.1
  unfold ramtdNandWrite nandDoWriteOps
  rw [if_neg (not_lt.mpr hin), if_neg hlen.ne']
  dsimp only
  rw [if_neg hdata]
  exact hpages

theorem Programmed.dataByte {c' : RaNandChip} {image : Bytes} (hmode : c'.mode = c.mode)
    (h : Programmed c c' image (start / c.mode.pagesize)
      ((start + len - 1) / c.mode.pagesize + 1)) (hlen : 0 < len) (a : Nat) :
    (Touched c.mode start len (a / c.mode.pagesize) →
      c'.dataByte a = c.dataByte a &&& image a) ∧
    (¬ Touched c.mode start len (a / c.mode.pagesize) → c'.dataByte a = c.dataByte a) := by
  have hmod := mod_lt a c.mode.pagesize_pos
  unfold RaNandChip.dataByte
  rw [hmode, touched_iff hlen]
  constructor
  · rintro ⟨hfirst, hlast⟩
    rw [h.data _ hfirst hlast _ hmod, div_add_mod']
  · intro hout
    rw [h.other _ hout]

theorem Programmed.onlyAsked {c' : RaNandChip} (hmode : c'.mode = c.mode)
    (h : Programmed c c' (c.image start len buf) (start / c.mode.pagesize)
      ((start + len - 1) / c.mode.pagesize + 1)) (hlen : 0 < len)
    (hin : start + len ≤ c.mode.chipsize)
    (herased : ∀ a, start ≤ a → a < start + len → c.dataByte a = 0xff)
    (hharmless : Harmless c start len buf) : OnlyAsked c c' start len buf := by
  have hdata : ∀ a, c'.dataByte a =
      if start ≤ a ∧ a < start + len then buf (a - start) else c.dataByte a := by
    intro a
    obtain ⟨hprog, hkept⟩ := h.dataByte hmode hlen a
    by_cases hrange : start ≤ a ∧ a < start + len
    · have htouched : Touched c.mode start len (a / c.mode.pagesize) :=
        ⟨a - start, by omega, by rw [Nat.add_sub_cancel' hrange.1]⟩
      rw [if_pos hrange, hprog htouched, herased a hrange.1 hrange.2, image, if_pos hrange]
      exact BitVec.allOnes_and
    · rw [if_neg hrange]
      by_cases htouched : Touched c.mode start len (a / c.mode.pagesize)
      · rw [hprog htouched, image, if_neg hrange]
        exact hharmless.data a htouched hrange
      · exact hkept htouched
  refine ⟨hdata, ?_, ?_⟩
  · intro p col hfree
    by_cases hecc : IsEcc c.mode col
    · by_cases htouched : Touched c.mode start len p
      · obtain ⟨hlarge, rfl⟩ := isFree_isEcc_iff.mp ⟨hfree, hecc⟩
        have hpages := (touched_iff hlen).mp htouched
        obtain ⟨k, hk⟩ := h.ecc p hpages.1 hpages.2 _ hecc
        rw [hk, hharmless.spare hlarge p htouched]
        exact BitVec.zero_and
      · rw [touched_iff hlen] at htouched
        rw [h.other p htouched]
    · exact h.spare p col hfree.pagesize_le hecc
  · intro answers hquiet r
    have hread := ramtdNandRead_quiet hquiet start len (by
      show start + len ≤ c'.mode.chipsize
      rwa [hmode])
    refine ⟨fun hok => ?_, hread.2⟩
    rw [hread.1 hok]
    apply map_congr_left
    intro i hi
    have hrange := mem_range.mp hi
    show c'.dataByte (start + i) = buf i
    rw [hdata, if_pos ⟨by omega, by omega⟩, Nat.add_sub_cancel_left]

/-- **What a write changes**: only what it was asked to, exactly if what is left in the buffer is
    harmless. -/
theorem writesOnlyAsked_iff (c : RaNandChip) (start len : Nat) (buf : Bytes)
    (hin : start + len ≤ c.mode.chipsize)
    (herased : ∀ a, start ≤ a → a < start + len → c.dataByte a = 0xff) :
    WritesOnlyAsked c start len buf ↔ Harmless c start len buf := by
  rcases Nat.eq_zero_or_pos len with rfl | hlen
  · -- nothing to write
    constructor
    · intro _
      exact ⟨fun a ⟨i, hi, _⟩ => absurd hi (Nat.not_lt_zero i),
        fun _ p ⟨i, hi, _⟩ => absurd hi (Nat.not_lt_zero i)⟩
    · intro _ answers hquiet _
      have hsame : (c.withAnswers answers).ramtdNandWrite start 0 buf =
          (c.withAnswers answers, .ok (), 0) := by
        unfold ramtdNandWrite
        have hinside : ¬ (c.withAnswers answers).mode.chipsize < start + 0 := not_lt.mpr hin
        rw [if_neg hinside, if_pos rfl]
      rw [hsame]
      refine ⟨fun a => (if_neg (by omega)).symm, fun _ _ _ => rfl, ?_⟩
      intro answers' hquiet' r
      exact ramtdNandRead_quiet hquiet' _ _ hin
  constructor
  · intro honly
    have hquiet : (c.withAnswers meekAnswers).Quiet := fun _ => rfl
    have hwilling : (c.withAnswers meekAnswers).Willing := fun _ => ⟨rfl, fun _ => rfl⟩
    obtain ⟨-, hunwilling⟩ | ⟨hok, hmode, hprog⟩ := ramtdNandWrite_programs hquiet hlen hin buf
    · exact absurd hwilling hunwilling
    have hafter := honly meekAnswers hquiet hok
    refine ⟨?_, ?_⟩
    · intro a htouched hrange
      have hsame := hafter.data a
      rw [if_neg hrange, (hprog.dataByte hmode hlen a).1 htouched, image, if_neg hrange] at hsame
      exact hsame
    · intro hlarge p htouched
      obtain ⟨hfree, hecc⟩ := isFree_isEcc_iff.mpr ⟨hlarge, rfl⟩
      have hpages := (touched_iff hlen).mp htouched
      obtain ⟨k, hk⟩ := hprog.ecc p hpages.1 hpages.2 _ hecc
      rw [← hafter.spare p _ hfree, hk]
      exact BitVec.and_zero
  · intro hharmless answers hquiet hok
    obtain ⟨⟨e, herror⟩, -⟩ | ⟨-, hmode, hprog⟩ := ramtdNandWrite_programs hquiet hlen hin buf
    · rw [herror] at hok
      cases hok
    · have hafter := Programmed.onlyAsked (c := c.withAnswers answers) hmode hprog hlen hin herased
        ⟨hharmless.data, hharmless.spare⟩
      exact ⟨hafter.data, hafter.spare, hafter.reads⟩

/-- A whole page leaves nothing of the buffer. -/
theorem writesOnlyAsked_onePage : WritesOnlyAsked erasedChip 512 512 fun _ => 0x5a := by
  apply (writesOnlyAsked_iff erasedChip 512 512 (fun _ => 0x5a) (by decide)
    (fun _ _ _ => rfl)).mpr
  refine ⟨?_, fun hlarge => ?_⟩
  · rintro a ⟨i, hi, hpage⟩ hout
    have hps : erasedChip.mode.pagesize = 512 := rfl
    rw [hps] at hpage
    omega
  · cases hlarge

/-! ### One byte at the start of an erased chip -/

theorem not_writesOnlyAsked_oneByte : ¬ WritesOnlyAsked erasedChip 0 1 fun _ => 0x5a := by
  intro honly
  have hafter := honly erasedChip.answers (fun _ => rfl) (by decide +kernel)
  have hnext := hafter.data 1
  revert hnext
  decide +kernel

end RaNandChip

end RalinkSdk.Nand
