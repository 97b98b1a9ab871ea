import RalinkSdk.Nand.Access

/-!
# OOB bytes in the free areas

With `MTD_OOB_AUTO` the free areas of successive pages are one sequence of bytes to a write: it
starts `ooboffs` bytes behind the first one.  A read skips `ooboffs` bytes of every page.
-/

namespace RalinkSdk.Nand

open Lib List Nat

/-! ## The free areas -/

/-- The offset of a free byte in the OOB of a page. -/
def freeOff (f : Nat) : Nat := if f < 4 then f else f + 4

/-- The offset is one of the free areas. -/
def InFree (off : Nat) : Prop := off < 4 ∨ 8 ≤ off ∧ off < 16

/-- The number of the free byte at an offset of a free area. -/
def freeIdx (off : Nat) : Nat := if off < 4 then off else off - 4

instance (off : Nat) : Decidable (InFree off) := inferInstanceAs (Decidable (_ ∨ _))

/-- Byte `x` after bytes of `oob`, from `src` on, have been stored in the free areas of the pages
    from `base` on, behind the first `woffs` free bytes. -/
def placed (oobsize base woffs size src : Nat) (oob buf : Bytes) : Bytes := fun x =>
  let off := (x - base) % oobsize
  let g := 12 * ((x - base) / oobsize) + freeIdx off
  if base ≤ x ∧ InFree off ∧ woffs ≤ g ∧ g < woffs + size then oob (src + (g - woffs)) else buf x

theorem freeIdx_lt {off : Nat} (h : InFree off) : freeIdx off < 12 := by
  unfold InFree at h
  unfold freeIdx
  split <;> omega

theorem inFree_freeOff {f : Nat} (h : f < 12) : InFree (freeOff f) := by
  unfold InFree freeOff
  split <;> omega

theorem freeIdx_freeOff (f : Nat) : freeIdx (freeOff f) = f := by
  unfold freeIdx freeOff
  split_ifs <;> omega

variable {oobsize : Nat}

theorem placed_placed (hpos : 0 < oobsize) (base : Nat) {woffs : Nat}
    (hwoffs : woffs ≤ 12) (size src : Nat) (oob buf : Bytes) :
    placed oobsize (base + oobsize) 0 (size - min size (12 - woffs)) (src + min size (12 - woffs)) oob
        (placed oobsize base woffs (min size (12 - woffs)) src oob buf) =
      placed oobsize base woffs size src oob buf := by
  funext x
  simp only [placed]
  by_cases hx : base + oobsize ≤ x
  · have hsub : x - base = (x - (base + oobsize)) + oobsize := by omega
    rw [hsub, add_mod_right, add_div_right _ hpos]
    generalize (x - (base + oobsize)) % oobsize = off
    generalize (x - (base + oobsize)) / oobsize = k
    by_cases hfree : InFree off
    · have hlt := freeIdx_lt hfree
      by_cases hin : 12 * (k + 1) + freeIdx off < woffs + size
      · rw [if_pos ⟨hx, hfree, by omega, by omega⟩, if_pos ⟨by omega, hfree, by omega, hin⟩]
        congr 1
        omega
      · rw [if_neg (by omega), if_neg (by omega), if_neg (by omega)]
    · rw [if_neg (by tauto), if_neg (by tauto), if_neg (by tauto)]
  · rw [if_neg (by tauto)]
    by_cases hbase : base ≤ x
    · have hlt : x - base < oobsize := by omega
      rw [mod_eq_of_lt hlt, div_eq_of_lt hlt]
      by_cases hfree : InFree (x - base)
      · have hidx := freeIdx_lt hfree
        congr 1
        simp only [hbase, hfree, true_and, eq_iff_iff, Nat.mul_zero, Nat.zero_add]
        omega
      · rw [if_neg (by tauto), if_neg (by tauto)]
    · rw [if_neg (by tauto), if_neg (by tauto)]

theorem placed_append (oobsize base woffs n m src : Nat) (oob buf : Bytes) :
    placed oobsize base (woffs + n) m (src + n) oob (placed oobsize base woffs n src oob buf) =
      placed oobsize base woffs (n + m) src oob buf := by
  funext x
  simp only [placed]
  generalize 12 * ((x - base) / oobsize) + freeIdx ((x - base) % oobsize) = g
  by_cases hfree : base ≤ x ∧ InFree ((x - base) % oobsize)
  · simp only [hfree, true_and]
    by_cases hbehind : woffs + n ≤ g
    · by_cases hin : g < woffs + (n + m)
      · rw [if_pos ⟨hbehind, by omega⟩, if_pos ⟨by omega, hin⟩]
        congr 1
        omega
      · rw [if_neg (by omega), if_neg (by omega), if_neg (by omega)]
    · rw [if_neg (by omega)]
      congr 1
      simp only [eq_iff_iff]
      omega
  · rw [if_neg (by tauto), if_neg (by tauto), if_neg (by tauto)]

theorem memcpy_area (hsize : 16 ≤ oobsize) (base : Nat) (oob : Bytes)
    (first n src : Nat) (buf : Bytes) (harea : first + n ≤ 4 ∨ 4 ≤ first ∧ first + n ≤ 12) :
    memcpy buf (base + freeOff first) (fun i => oob (src + i)) n =
      placed oobsize base first n src oob buf := by
  have hoff : first < 4 ∧ freeOff first = first ∨ 4 ≤ first ∧ freeOff first = first + 4 := by
    unfold freeOff
    split_ifs <;> omega
  funext x
  by_cases hin : base + freeOff first ≤ x ∧ x < base + freeOff first + n
  · have hlt : x - base < oobsize := by omega
    have hidx : freeIdx (x - base) = first + (x - (base + freeOff first)) := by
      unfold freeIdx
      split_ifs <;> omega
    have hfree : InFree (x - base) := by
      unfold InFree
      omega
    rw [memcpy_of_mem hin.1 hin.2]
    simp only [placed, mod_eq_of_lt hlt, div_eq_of_lt hlt, hidx]
    rw [if_pos ⟨by omega, hfree, by omega, by omega⟩]
    congr 1
    omega
  · rw [memcpy, if_neg hin]
    refine (if_neg ?_).symm
    rintro ⟨hbase, hfree, hle, hlt⟩
    have hpage : (x - base) / oobsize = 0 := by omega
    have hdiv := div_add_mod (x - base) oobsize
    rw [hpage, Nat.mul_zero, Nat.zero_add] at hdiv
    rw [hpage, hdiv] at hle hlt
    rw [hdiv] at hfree
    unfold freeIdx at hle hlt
    unfold InFree at hfree
    split_ifs at hle hlt <;> omega

theorem placed_zero (oobsize base woffs src : Nat) (oob buf : Bytes) :
    placed oobsize base woffs 0 src oob buf = buf := by
  funext x
  exact if_neg (by omega)

/-- **One page**: what the inner loop stores, and what it leaves to do. -/
theorem writeFree_eq (hsize : 16 ≤ oobsize) (base : Nat) (oob buf : Bytes)
    {woffs : Nat} (hwoffs : woffs ≤ 12) {size : Nat} (hpos : size ≠ 0) (src : Nat) :
    writeFree base oob oobfree buf woffs size src =
      (placed oobsize base woffs (min size (12 - woffs)) src oob buf, 0,
        size - min size (12 - woffs), src + min size (12 - woffs)) := by
  have harea := memcpy_area hsize base oob
  simp only [oobfree, writeFree]
  rw [if_neg hpos]
  rcases Nat.lt_or_ge woffs 4 with hfirst | hsecond
  · -- the first area, and the second one if bytes are left
    have hstore := harea woffs (min size (4 - woffs)) src buf (.inl (by omega))
    rw [freeOff, if_pos hfirst] at hstore
    rw [if_neg (by omega), Nat.add_zero, hstore]
    by_cases hrest : size - min size (4 - woffs) = 0
    · rw [if_pos hrest]
      have hmin : min size (12 - woffs) = min size (4 - woffs) := by omega
      rw [hmin]
    · have hfour : 4 = woffs + min size (4 - woffs) := by omega
      have hmin : min size (4 - woffs) + min (size - min size (4 - woffs)) 8 =
          min size (12 - woffs) := by omega
      have hstore' := harea 4 (min (size - min size (4 - woffs)) 8) (src + min size (4 - woffs))
        (placed oobsize base woffs (min size (4 - woffs)) src oob buf) (.inr (by omega))
      rw [show base + freeOff 4 = base + 8 from rfl] at hstore'
      rw [if_neg hrest, if_neg (by omega)]
      simp only [Nat.sub_zero, Nat.add_zero]
      rw [hstore']
      conv_lhs =>
        rw [show placed oobsize base 4 = placed oobsize base (woffs + min size (4 - woffs)) by
          rw [← hfour]]
      rw [placed_append, hmin, Nat.add_assoc, hmin, Nat.sub_sub, hmin]
  · rw [if_pos (by omega), if_neg hpos]
    rcases Nat.lt_or_ge woffs 12 with hin | hend
    · have hstore := harea woffs (min size (12 - woffs)) src buf (.inr (by omega))
      rw [freeOff, if_neg (by omega)] at hstore
      rw [if_neg (by omega), show base + 8 + (woffs - 4) = base + (woffs + 4) by omega,
        show 8 - (woffs - 4) = 12 - woffs by omega, hstore]
    · have hnone : min size (12 - woffs) = 0 := by omega
      rw [if_pos (by omega), hnone, placed_zero, Nat.sub_zero, Nat.add_zero,
        show woffs - 4 - 8 = 0 by omega]

/-- **All pages**: where the bytes of a write go. -/
theorem writeAuto_eq (hsize : 16 ≤ oobsize) (oob : Bytes)
    (rounds : Nat) (buf : Bytes) (base : Nat) {woffs : Nat} (hwoffs : woffs ≤ 12) (size src : Nat)
    (hrounds : size + (if woffs = 12 then 1 else 0) ≤ rounds) :
    writeAuto oobsize oob rounds buf base woffs size src =
      placed oobsize base woffs size src oob buf := by
  have hoob : 0 < oobsize := by omega
  induction rounds generalizing buf base woffs size src with
  | zero =>
    have hzero : size = 0 := by omega
    rw [hzero, placed_zero]
    rfl
  | succ rounds ih =>
    unfold writeAuto
    by_cases hzero : size = 0
    · rw [if_pos hzero, hzero, placed_zero]
    · rw [if_neg hzero, writeFree_eq hsize base oob buf hwoffs hzero]
      dsimp only
      -- from the second page on every round takes some bytes
      rw [ih _ _ (Nat.zero_le 12) _ _ (by split at hrounds <;> simp <;> omega),
        placed_placed hoob base hwoffs]

/-! ## Writing OOB bytes alone -/

/-- A read or a write of OOB bytes alone. -/
def oobOps (ooblen ooboffs : Nat) (oob : Bytes) : MtdOobOps where
  mode := .auto
  len := 0
  ooblen := ooblen
  ooboffs := ooboffs
  datbuf := none
  oobbuf := some oob

/-- The number of the free byte at a column of page `p`, counted from page `page` on. -/
def freeNumber (m : ChipMode) (page p col : Nat) : Nat :=
  12 * (p - page) + freeIdx (col - m.pagesize)

/-- The column of page `p` is one of the free bytes that a write at page `page` stores to. -/
def Written (m : ChipMode) (page ooboffs ooblen p col : Nat) : Prop :=
  m.pagesize ≤ col ∧ InFree (col - m.pagesize) ∧ page ≤ p ∧
    ooboffs ≤ freeNumber m page p col ∧ freeNumber m page p col < ooboffs + ooblen

instance (m : ChipMode) (page ooboffs ooblen p col : Nat) :
    Decidable (Written m page ooboffs ooblen p col) :=
  inferInstanceAs (Decidable (_ ∧ _))

theorem sixteen_le_oobsize (m : ChipMode) : 16 ≤ m.oobsize := by
  cases m <;> decide

namespace RaNandChip

variable {c : RaNandChip}

def StaysInBlock (m : ChipMode) (page ooboffs ooblen : Nat) : Prop :=
  12 * (page % m.pagesPerblock) + ooboffs + ooblen ≤ 12 * m.pagesPerblock

theorem oobBug_burst {page ooboffs ooblen : Nat} (oob : Bytes)
    (hfit : StaysInBlock c.mode page ooboffs ooblen) :
    c.oobBug page 0 (c.oobBurstLen (oobOps ooblen ooboffs oob)) = false := by
  have hpos : 0 < c.mode.oobsize := Nat.two_pow_pos _
  have hpage := div_add_mod' page c.mode.pagesPerblock
  have hmod := mod_lt page c.mode.pagesPerblock_pos
  unfold StaysInBlock at hfit
  simp only [oobBug, oobBurstLen, oobOps, oobavail, Nat.zero_add, Nat.mul_div_cancel _ hpos,
    Bool.or_eq_false_iff, decide_eq_false_iff_not, not_le, not_lt, Nat.add_mul, Nat.one_mul]
  exact ⟨hpos, by omega⟩

theorem oobMask_burst (page ooboffs ooblen : Nat) (oob buf : Bytes) (p col : Nat) :
    let len := c.oobBurstLen (oobOps ooblen ooboffs oob)
    let buf' := placed c.mode.oobsize 0 ooboffs ooblen 0 oob
      (memcpy buf 0 (fun i => c.oobByte page (0 + i)) len)
    c.flash p col &&& c.oobMask page 0 buf' len p col =
      if Written c.mode page ooboffs ooblen p col
      then c.flash p col &&& oob (freeNumber c.mode page p col - ooboffs) else c.flash p col := by
  intro len buf'
  have hpos : 0 < c.mode.oobsize := Nat.two_pow_pos _
  have hsixteen := sixteen_le_oobsize c.mode
  have hlen : len = (ooblen + ooboffs + 11) / 12 * c.mode.oobsize := rfl
  -- the place of the column among the OOB bytes from the page on
  have hplace : ∀ off < c.mode.oobsize, page ≤ p →
      p * c.mode.oobsize + off - (page * c.mode.oobsize + 0) = (p - page) * c.mode.oobsize + off := by
    intro off _ hp
    rw [Nat.sub_mul]
    have hmono := Nat.mul_le_mul_right c.mode.oobsize hp
    omega
  have hcolumn : ∀ off < c.mode.oobsize, ((p - page) * c.mode.oobsize + off) / c.mode.oobsize =
      p - page ∧ ((p - page) * c.mode.oobsize + off) % c.mode.oobsize = off := by
    intro off hoff
    rw [Nat.mul_comm, mul_add_div hpos, mul_add_mod_self_left, div_eq_of_lt hoff,
      mod_eq_of_lt hoff]
    exact ⟨rfl, rfl⟩
  simp only [oobMask]
  by_cases hin : c.mode.pagesize ≤ col ∧ col < c.mode.pagesize + c.mode.oobsize ∧
      page * c.mode.oobsize + 0 ≤ p * c.mode.oobsize + (col - c.mode.pagesize) ∧
      p * c.mode.oobsize + (col - c.mode.pagesize) < page * c.mode.oobsize + 0 + len
  · obtain ⟨hcol, hlt, hbehind, hbefore⟩ := hin
    have hoff : col - c.mode.pagesize < c.mode.oobsize := by omega
    have hp : page ≤ p := by
      by_contra hless
      have hmono := Nat.mul_le_mul_right c.mode.oobsize (show p + 1 ≤ page by omega)
      rw [Nat.add_one_mul] at hmono
      omega
    obtain ⟨hdiv, hmod⟩ := hcolumn _ hoff
    have hsub := hplace _ hoff hp
    rw [if_pos ⟨hcol, hlt, hbehind, hbefore⟩, hsub]
    simp only [buf', placed, Nat.sub_zero, hdiv, hmod]
    by_cases hwritten : Written c.mode page ooboffs ooblen p col
    · obtain ⟨-, hfree, -, hge, hless⟩ := hwritten
      rw [if_pos ⟨Nat.zero_le _, hfree, hge, hless⟩, if_pos ⟨hcol, hfree, hp, hge, hless⟩,
        Nat.zero_add]
      rfl
    · rw [if_neg hwritten, if_neg fun h => hwritten ⟨hcol, h.2.1, hp, h.2.2.1, h.2.2.2⟩,
        memcpy_of_mem (Nat.zero_le _) (by omega), Nat.sub_zero, Nat.zero_add, oobByte, hdiv, hmod,
        Nat.add_sub_cancel' hp, Nat.add_sub_cancel' hcol]
      exact BitVec.and_self
  · rw [if_neg hin]
    have hunwritten : ¬ Written c.mode page ooboffs ooblen p col := by
      rintro ⟨hcol, hfree, hp, hge, hless⟩
      have hoff : col - c.mode.pagesize < c.mode.oobsize := by
        unfold InFree at hfree
        omega
      have hlast : p - page + 1 ≤ (ooblen + ooboffs + 11) / 12 := by
        unfold freeNumber at hless
        omega
      have hmono := Nat.mul_le_mul_right c.mode.oobsize hlast
      have hfirst := Nat.mul_le_mul_right c.mode.oobsize hp
      have hsub := hplace _ hoff hp
      rw [Nat.add_one_mul] at hmono
      exact hin ⟨hcol, by omega, by omega, by omega⟩
    rw [if_neg hunwritten]
    exact BitVec.and_allOnes

theorem nandWriteOobBuf_auto (m : ChipMode) (buf : Bytes) (base : Nat) (oob : Bytes) (size : Nat)
    {ooboffs : Nat} (hoffs : ooboffs ≤ 12) : nandWriteOobBuf m buf base oob size .auto ooboffs =
      some (placed m.oobsize base ooboffs size 0 oob buf, size) := by
  have hinside : ¬ oobavail < ooboffs := not_lt.mpr hoffs
  unfold nandWriteOobBuf
  dsimp only
  rw [if_neg hinside, writeAuto_eq (sixteen_le_oobsize m) oob _ _ _ hoffs _ _ (by split <;> omega)]

theorem preloadOob_burst (hquiet : c.Quiet) {page len : Nat} (ooblen ooboffs : Nat) (oob : Bytes)
    (hbug : c.oobBug page 0 len = false) :
    ∃ c', c.preloadOob page 0 len (oobOps ooblen ooboffs oob) = (c', .ok ()) ∧
      c'.mode = c.mode ∧ c'.flash = c.flash ∧ c'.answers = c.answers ∧
      c'.buffers = memcpy c.buffers 0 (fun i => c.oobByte page (0 + i)) len := by
  unfold preloadOob
  rw [nfcReadOob_quiet hquiet hbug]
  exact ⟨_, rfl, rfl, rfl, rfl, rfl⟩

theorem nfcWriteOob_quiet (hquiet : c.Quiet) {page offs len : Nat} (buf : Bytes)
    (hbug : c.oobBug page offs len = false) : c.nfcWriteOob page offs buf len =
      ((c.program (c.oobMask page offs buf len)).accessed, .ok true) := by
  have hok : c.answer.fail = false := hquiet c.accesses
  unfold nfcWriteOob
  rw [if_neg (by simp [hbug]), if_neg (by simp [hok])]

/-- **A write of OOB bytes alone**: the free bytes behind the offset are programmed, and nothing
    else. -/
theorem writeOobBurst_quiet (hquiet : c.Quiet) (hwp : c.answer.wp = false) {start : Nat}
    (hstart : start < c.mode.chipsize) {ooblen ooboffs : Nat} (hoffs : ooboffs ≤ 12)
    (hfit : StaysInBlock c.mode (c.mode.pageOf start) ooboffs ooblen) (oob : Bytes) :
    ∃ c', c.writeOobBurst start (oobOps ooblen ooboffs oob) =
        (c', .ok (), (oobOps ooblen ooboffs oob).start.oobDone ooblen) ∧
      c'.mode = c.mode ∧ c'.answers = c.answers ∧ ∀ p col, c'.flash p col =
        if Written c.mode (c.mode.pageOf start) ooboffs ooblen p col
        then c.flash p col &&& oob (freeNumber c.mode (c.mode.pageOf start) p col - ooboffs)
        else c.flash p col := by
  have hbug : c.accessed.oobBug (c.accessed.mode.pageOf start) 0
      (c.accessed.oobBurstLen (oobOps ooblen ooboffs oob)) = false := oobBug_burst (c := c) oob hfit
  obtain ⟨c₂, hpre, hmode, hflash, hanswers, hbuffers⟩ := preloadOob_burst (c := { c.accessed with
    buffers := memcpy c.accessed.buffers 0 (fun _ => 0xff) c.accessed.mode.pagesize }) hquiet
    ooblen ooboffs oob hbug
  -- the controller is the same for the second access
  have hsend : ∀ buf : Bytes, nfcWriteOob { c₂ with buffers := buf } (c.accessed.mode.pageOf start) 0
      buf (c.accessed.oobBurstLen (oobOps ooblen ooboffs oob)) =
        ((program { c₂ with buffers := buf } (c.oobMask (c.mode.pageOf start) 0 buf
          (c.oobBurstLen (oobOps ooblen ooboffs oob)))).accessed, .ok true) := by
    intro buf
    have hquiet₂ : Quiet { c₂ with buffers := buf } := fun n => by
      show (c₂.answers n).fail = false
      rw [hanswers]
      exact hquiet n
    have hbug₂ : oobBug { c₂ with buffers := buf } (c.accessed.mode.pageOf start) 0
        (c.accessed.oobBurstLen (oobOps ooblen ooboffs oob)) = false := by
      unfold oobBug at hbug ⊢
      dsimp only
      rw [hmode]
      exact hbug
    rw [nfcWriteOob_quiet hquiet₂ buf hbug₂]
    unfold oobMask
    dsimp only
    rw [hmode]
    rfl
  unfold writeOobBurst
  rw [nfcEnableChip_write hstart, hwp]
  simp only [Bool.not_false]
  rw [hpre]
  dsimp only
  rw [show (oobOps ooblen ooboffs oob).oobbuf = some oob from rfl]
  dsimp only
  rw [show nandWriteOobBuf c₂.mode c₂.buffers 0 oob (oobOps ooblen ooboffs oob).ooblen
      (oobOps ooblen ooboffs oob).mode (oobOps ooblen ooboffs oob).ooboffs =
      some (placed c₂.mode.oobsize 0 ooboffs ooblen 0 oob c₂.buffers, ooblen) from
    nandWriteOobBuf_auto c₂.mode c₂.buffers 0 oob ooblen hoffs]
  dsimp only
  rw [hsend]
  refine ⟨_, rfl, hmode, hanswers, fun p col => ?_⟩
  have hmask := oobMask_burst (c := c) (c.mode.pageOf start) ooboffs ooblen oob (memcpy c.buffers 0 (fun _ => 0xff) c.mode.pagesize) p col
  rw [← hmask]
  show c₂.flash p col &&& _ = _
  rw [hflash, hbuffers, hmode]
  rfl

/-! ## Reading OOB bytes alone -/

/-- **One page**: the bytes that a read finds. -/
theorem readFree_eq (buf : Bytes) (base : Nat) {woffs size : Nat} (hfit : woffs + size ≤ 12) :
    readFree buf base oobfree woffs size =
      (range size).map fun i => buf (base + freeOff (woffs + i)) := by
  simp only [oobfree, readFree]
  by_cases hzero : size = 0
  · rw [if_pos hzero, hzero]
    rfl
  rw [if_neg hzero]
  rcases Nat.lt_or_ge woffs 4 with hfirst | hsecond
  · rw [if_neg (by omega)]
    have harea : (range (min size (4 - woffs))).map (fun i => buf (base + 0 + woffs + i)) =
        (range (min size (4 - woffs))).map fun i => buf (base + freeOff (woffs + i)) := by
      apply map_congr_left
      intro i hi
      have hrange := mem_range.mp hi
      rw [freeOff, if_pos (by omega)]
      congr 1
      omega
    rw [harea]
    by_cases hrest : size - min size (4 - woffs) = 0
    · rw [if_pos hrest, append_nil]
      congr 2
      omega
    · rw [if_neg hrest, if_neg (by omega), append_nil]
      have hsplit : range size = range (min size (4 - woffs) +
          min (size - min size (4 - woffs)) (8 - 0)) := by
        congr 1
        omega
      rw [hsplit, range_add, map_append, map_map]
      congr 1
      apply map_congr_left
      intro i hi
      have hrange := mem_range.mp hi
      show buf (base + 8 + 0 + i) = buf (base + freeOff (woffs + (min size (4 - woffs) + i)))
      rw [freeOff, if_neg (by omega)]
      congr 1
      omega
  · rw [if_pos hsecond, if_neg hzero, if_neg (by omega), append_nil]
    have hmin : min size (8 - (woffs - 4)) = size := by omega
    rw [hmin]
    apply map_congr_left
    intro i hi
    have hrange := mem_range.mp hi
    rw [freeOff, if_neg (by omega)]
    congr 1
    omega

/-- The byte that a read finds for byte `i`: every page has `oobavail - ooboffs` of them. -/
def readPlace (c : RaNandChip) (page ooboffs i : Nat) : BitVec 8 :=
  c.flash (page + i / (oobavail - ooboffs))
    (c.mode.pagesize + freeOff (ooboffs + i % (oobavail - ooboffs)))

/-- The pages from `page` on have enough bytes behind the offset. -/
def Reaches (m : ChipMode) (page ooboffs ooblen : Nat) : Prop :=
  ooblen ≤ (m.numpage - page) * (oobavail - ooboffs)

structure OobReading (c₀ : RaNandChip) (page ooblen ooboffs r : Nat) (c : RaNandChip)
    (left : Left) : Prop where
  mode_eq : c.mode = c₀.mode
  flash_eq : c.flash = c₀.flash
  answers_eq : c.answers = c₀.answers
  datalen : left.datalen = 0
  left_eq : left.ooblen = ooblen - r * (oobavail - ooboffs)
  retlen : left.oobretlen = ooblen - left.ooblen
  oob : left.oob = (range (ooblen - left.ooblen)).map (c₀.readPlace page ooboffs)

/-- **A round** of a read of OOB bytes takes what there is behind the offset. -/
theorem OobReading.round {c₀ c' : RaNandChip} {page ooblen ooboffs r addr : Nat} {left left' : Left}
    {ret : Option (Except NandError Unit)} {bytes : Bytes}
    (h : OobReading c₀ page ooblen ooboffs r c left) (hquiet : c₀.Quiet)
    (hoffs : ooboffs ≤ oobavail) (haddr : addr < c₀.mode.chipsize)
    (hpage : c₀.mode.pageOf addr = page + r) (hleft : ¬ (left.datalen = 0 ∧ left.ooblen = 0))
    (heq : readRound (oobOps ooblen ooboffs bytes) c addr left = (c', left', ret)) :
    ret = none ∧ OobReading c₀ page ooblen ooboffs (r + 1) c' left' := by
  have hmore : left.ooblen ≠ 0 := fun hzero => hleft ⟨h.datalen, hzero⟩
  have hquiet' : c.Quiet := fun n => by rw [h.answers_eq]; exact hquiet n
  have hoob : (if (oobOps ooblen ooboffs bytes).oobbuf.isSome && left.ooblen != 0 then
      nandReadOobBuf c.mode (c.readBuffers (c.mode.pageOf addr)) left.ooblen
        (oobOps ooblen ooboffs bytes).mode (oobOps ooblen ooboffs bytes).ooboffs
      else some []) = some ((range (min left.ooblen (oobavail - ooboffs))).map fun i =>
        c.flash (page + r) (c.mode.pagesize + freeOff (ooboffs + i))) := by
    have hinside : ¬ oobavail < ooboffs := not_lt.mpr hoffs
    rw [if_pos (by simp [oobOps, hmore])]
    dsimp only [oobOps, nandReadOobBuf]
    rw [if_neg hinside, readFree_eq _ _ (by unfold oobavail at hoffs ⊢; omega), h.mode_eq, hpage]
    congr 1
    apply map_congr_left
    intro i hi
    have hrange := mem_range.mp hi
    have hfree := inFree_freeOff (f := ooboffs + i) (by unfold oobavail at hoffs hrange; omega)
    have hsixteen := sixteen_le_oobsize c₀.mode
    unfold InFree at hfree
    exact readBuffers_of_lt (by rw [h.mode_eq]; omega)
  obtain ⟨c₁, ret₁, hround, hmode, hflash, hanswers, hret⟩ := readRound_quiet hquiet' _ _ _
    (h.mode_eq ▸ haddr) hoob
  obtain ⟨rfl, hrest⟩ := Prod.mk.inj (hround.symm.trans heq)
  obtain ⟨rfl, rfl⟩ := Prod.mk.inj hrest
  have hnone : ret₁ = none := by
    obtain hnone | ⟨hdata, -⟩ := hret
    · exact hnone
    · exact absurd rfl hdata
  have hleft := h.left_eq
  have hretlen := h.retlen
  have hmul := Nat.add_one_mul r (oobavail - ooboffs)
  refine ⟨hnone, hmode.trans h.mode_eq, hflash.trans h.flash_eq, hanswers.trans h.answers_eq,
    ?_, ?_, ?_, ?_⟩
  · show left.datalen - _ = 0
    rw [h.datalen, Nat.zero_sub]
  · show left.ooblen - _ = _
    rw [length_map, length_range]
    omega
  · show left.oobretlen + _ = ooblen - (left.ooblen - _)
    rw [length_map, length_range]
    omega
  · show left.oob ++ _ = (range (ooblen - (left.ooblen - _))).map _
    rw [length_map, length_range]
    have hsplit : ooblen - (left.ooblen - min left.ooblen (oobavail - ooboffs)) =
        (ooblen - left.ooblen) + min left.ooblen (oobavail - ooboffs) := by omega
    rw [hsplit, range_add, map_append, map_map, ← h.oob]
    congr 1
    apply map_congr_left
    intro i hi
    have hrange := mem_range.mp hi
    have hdone : ooblen - left.ooblen = r * (oobavail - ooboffs) := by omega
    have hpos : 0 < oobavail - ooboffs := by omega
    have hsmall : i < oobavail - ooboffs := by omega
    show _ = c₀.readPlace page ooboffs (ooblen - left.ooblen + i)
    rw [hdone, readPlace, Nat.mul_comm r, mul_add_div hpos, mul_add_mod_self_left,
      div_eq_of_lt hsmall, mod_eq_of_lt hsmall, h.flash_eq, h.mode_eq]
    rfl

/-- **Where a read looks**: at the bytes behind the offset of page after page, as long as there
    are pages. -/
theorem oobLoop_reads (hquiet : c.Quiet) {start : Nat} (hstart : start < c.mode.chipsize)
    {ooboffs : Nat} (hoffs : ooboffs ≤ oobavail) (ooblen : Nat) (bytes : Bytes) :
    let r := c.nandDoReadOps start (oobOps ooblen ooboffs bytes)
    Reaches c.mode (c.mode.pageOf start) ooboffs ooblen ∧ r.2.1 = .ok () ∧
        r.2.2.oobretlen = ooblen ∧
        r.2.2.oob = (range ooblen).map (c.readPlace (c.mode.pageOf start) ooboffs) ∨
      ¬ Reaches c.mode (c.mode.pageOf start) ooboffs ooblen ∧ r.2.1 = .error .eio := by
  have hchip := c.mode.numpage_mul_pagesize
  have hfirst := ChipMode.pageOf_lt (m := c.mode) start
  -- all bytes have been read after `r` pages
  have hend : ∀ {r : Nat} {c' : RaNandChip} {left : Left},
      OobReading c (c.mode.pageOf start) ooblen ooboffs r c' left → left.ooblen = 0 →
      c.mode.pageOf start + r ≤ c.mode.numpage →
      Reaches c.mode (c.mode.pageOf start) ooboffs ooblen ∧ left.oobretlen = ooblen ∧
        left.oob = (range ooblen).map (c.readPlace (c.mode.pageOf start) ooboffs) := by
    intro r c' left h hdone hpages
    have hleft := h.left_eq
    have hmono := Nat.mul_le_mul_right (oobavail - ooboffs)
      (show r ≤ c.mode.numpage - c.mode.pageOf start by omega)
    refine ⟨?_, ?_, ?_⟩
    · unfold Reaches
      omega
    · rw [h.retlen, hdone, Nat.sub_zero]
    · rw [h.oob, hdone, Nat.sub_zero]
  apply pageLoop_rule
    (fun rest c' addr left => ∃ r, OobReading c (c.mode.pageOf start) ooblen ooboffs r c' left ∧
      addr < c.mode.chipsize ∧ c.mode.pageOf addr = c.mode.pageOf start + r ∧
      c.mode.pageOf start + r + rest + 1 = c.mode.numpage)
    (fun r => Reaches c.mode (c.mode.pageOf start) ooboffs ooblen ∧ r.2.1 = .ok () ∧
        r.2.2.oobretlen = ooblen ∧
        r.2.2.oob = (range ooblen).map (c.readPlace (c.mode.pageOf start) ooboffs) ∨
      ¬ Reaches c.mode (c.mode.pageOf start) ooboffs ooblen ∧ r.2.1 = .error .eio)
  · rintro rest c' addr left ⟨r, h, haddr, hpage, hrest⟩ ⟨-, hdone⟩
    obtain ⟨hreach, hret, hoob⟩ := hend h hdone (by omega)
    exact .inl ⟨hreach, rfl, hret, hoob⟩
  · rintro rest c₁ addr left c' left' ret ⟨r, h, haddr, hpage, hrest⟩ hleft heq
    obtain ⟨hnone, -⟩ := h.round hquiet hoffs haddr hpage hleft heq
    cases hnone
  · rintro rest c₁ addr left c' left' ⟨r, h, haddr, hpage, hrest⟩ hleft heq
    obtain ⟨-, hnext⟩ := h.round hquiet hoffs haddr hpage hleft heq
    have hinside : (c.mode.pageOf start + r + 1) * c.mode.pagesize < c.mode.chipsize := by
      rw [← hchip]
      exact Nat.mul_lt_mul_of_pos_right (by omega) c.mode.pagesize_pos
    rw [hnext.mode_eq, hpage]
    refine ⟨r + 1, hnext, hinside, ?_, by omega⟩
    rw [ChipMode.pageOf_of_lt hinside, Nat.mul_div_cancel _ c.mode.pagesize_pos, Nat.add_assoc]
  · rintro c₁ addr left c' left' ⟨r, h, haddr, hpage, hrest⟩ hleft heq
    obtain ⟨-, hnext⟩ := h.round hquiet hoffs haddr hpage hleft heq
    by_cases hdone : left'.ooblen = 0
    · obtain ⟨hreach, hret, hoob⟩ := hend hnext hdone (by omega)
      rw [if_pos ⟨hnext.datalen, hdone⟩]
      exact .inl ⟨hreach, rfl, hret, hoob⟩
    · -- the chip ends before the bytes do
      have hshort := hnext.left_eq
      rw [if_neg fun hboth => hdone hboth.2]
      refine .inr ⟨?_, rfl⟩
      unfold Reaches
      rw [show c.mode.numpage - c.mode.pageOf start = r + 1 by omega]
      omega
  · refine ⟨0, ⟨rfl, rfl, rfl, rfl, ?_, ?_, ?_⟩, hstart, rfl, by omega⟩
    · rw [Nat.zero_mul, Nat.sub_zero]
      rfl
    · exact (Nat.sub_self ooblen).symm
    · show [] = (range (ooblen - ooblen)).map _
      rw [Nat.sub_self]
      rfl

/-! ## The round trip -/

/-- With any controller whose transfers do not fail and a chip that is not protected, a write of
    OOB bytes and a read of as many succeed, the read returns the bytes, and ECC bytes and
    bad-block marks are what they were. -/
def RoundTrips (c : RaNandChip) (start ooblen ooboffs : Nat) (oob : Bytes) : Prop :=
  ∀ answers, (c.withAnswers answers).Quiet → (∀ n, (answers n).wp = false) →
    let w := (c.withAnswers answers).nandDoWriteOps start (oobOps ooblen ooboffs oob)
    let r := w.1.nandDoReadOps start (oobOps ooblen ooboffs fun _ => 0)
    w.2.1 = .ok () ∧ r.2.1 = .ok () ∧ r.2.2.oobretlen = ooblen ∧
      r.2.2.oob = (range ooblen).map oob ∧
      ∀ p col, IsEcc c.mode col ∨ col = c.mode.badblockCol → w.1.flash p col = c.flash p col

/-- The byte of the write that is stored where the read looks for byte `i`. -/
def strayed (ooboffs i : Nat) : Nat := i + ooboffs * (i / (oobavail - ooboffs))

/-- The read does not come to the end of the chip and finds each byte, and the free byte of large
    pages that is also an ECC byte is not changed. -/
structure Readable (c : RaNandChip) (page ooblen ooboffs : Nat) (oob : Bytes) : Prop where
  reaches : Reaches c.mode page ooboffs ooblen
  bytes : ∀ i < ooblen, c.readPlace page ooboffs i &&&
    (if strayed ooboffs i < ooblen then oob (strayed ooboffs i) else 0xff) = oob i
  ecc : c.mode.isNandPage2048 = true → ∀ i < ooblen, (ooboffs + i) % 12 = 4 →
    c.flash (page + (ooboffs + i) / 12) (c.mode.pagesize + 8) &&& oob i =
      c.flash (page + (ooboffs + i) / 12) (c.mode.pagesize + 8)

theorem isFree_iff {m : ChipMode} {col : Nat} :
    IsFree m col ↔ m.pagesize ≤ col ∧ InFree (col - m.pagesize) := by
  simp only [IsFree, oobfree, mem_cons, not_mem_nil, or_false, exists_eq_or_imp,
    exists_eq_left, InFree]
  omega

variable {page ooblen ooboffs : Nat}

theorem readPlace_written {c' : RaNandChip} {oob : Bytes}
    (hmode : c'.mode = c.mode) (hflash : ∀ p col, c'.flash p col =
      if Written c.mode page ooboffs ooblen p col
      then c.flash p col &&& oob (freeNumber c.mode page p col - ooboffs) else c.flash p col)
    {i : Nat} (hoffs : ooboffs < oobavail) :
    c'.readPlace page ooboffs i = c.readPlace page ooboffs i &&&
      (if strayed ooboffs i < ooblen then oob (strayed ooboffs i) else 0xff) := by
  have havail : oobavail = 12 := rfl
  have hpos : 0 < oobavail - ooboffs := Nat.sub_pos_of_lt hoffs
  have hdiv := div_add_mod i (oobavail - ooboffs)
  have hmod := mod_lt i hpos
  have htwelve : (oobavail - ooboffs) * (i / (oobavail - ooboffs)) +
      ooboffs * (i / (oobavail - ooboffs)) = 12 * (i / (oobavail - ooboffs)) := by
    rw [← Nat.add_mul, Nat.sub_add_cancel hoffs.le, havail]
  have hnumber : freeNumber c.mode page (page + i / (oobavail - ooboffs))
      (c.mode.pagesize + freeOff (ooboffs + i % (oobavail - ooboffs))) =
        ooboffs + strayed ooboffs i := by
    rw [freeNumber, Nat.add_sub_cancel_left, Nat.add_sub_cancel_left, freeIdx_freeOff, strayed]
    omega
  have hfree : InFree (c.mode.pagesize + freeOff (ooboffs + i % (oobavail - ooboffs)) -
      c.mode.pagesize) := by
    rw [Nat.add_sub_cancel_left]
    exact inFree_freeOff (by omega)
  unfold readPlace
  rw [hmode, hflash]
  by_cases hin : strayed ooboffs i < ooblen
  · rw [if_pos ⟨Nat.le_add_right _ _, hfree, Nat.le_add_right _ _, by omega, by omega⟩, hnumber,
      if_pos hin, Nat.add_sub_cancel_left]
  · have hunwritten : ¬ Written c.mode page ooboffs ooblen (page + i / (oobavail - ooboffs))
        (c.mode.pagesize + freeOff (ooboffs + i % (oobavail - ooboffs))) := by
      rintro ⟨-, -, -, -, hless⟩
      omega
    rw [if_neg hunwritten, if_neg hin]
    exact BitVec.and_allOnes.symm

theorem ecc_untouched_iff {oob : Bytes} : (∀ p col, IsEcc c.mode col ∨ col = c.mode.badblockCol →
      (if Written c.mode page ooboffs ooblen p col
        then c.flash p col &&& oob (freeNumber c.mode page p col - ooboffs) else c.flash p col) =
          c.flash p col) ↔
    (c.mode.isNandPage2048 = true → ∀ i < ooblen, (ooboffs + i) % 12 = 4 →
      c.flash (page + (ooboffs + i) / 12) (c.mode.pagesize + 8) &&& oob i =
        c.flash (page + (ooboffs + i) / 12) (c.mode.pagesize + 8)) := by
  have hnumber : ∀ p, freeNumber c.mode page p (c.mode.pagesize + 8) = 12 * (p - page) + 4 := by
    intro p
    rw [freeNumber, Nat.add_sub_cancel_left]
    rfl
  constructor
  · intro hall hlarge i hi hfour
    have hecc := (isFree_isEcc_iff.mpr ⟨hlarge, rfl⟩).2
    have hwritten : Written c.mode page ooboffs ooblen (page + (ooboffs + i) / 12)
        (c.mode.pagesize + 8) := by
      refine ⟨Nat.le_add_right _ _, ?_, Nat.le_add_right _ _, ?_, ?_⟩
      · rw [Nat.add_sub_cancel_left]
        decide
      · rw [hnumber]
        omega
      · rw [hnumber]
        omega
    have hsame := hall (page + (ooboffs + i) / 12) _ (.inl hecc)
    rw [if_pos hwritten, hnumber, show 12 * (page + (ooboffs + i) / 12 - page) + 4 - ooboffs = i by
      omega] at hsame
    exact hsame
  · intro hkept p col hcol
    by_cases hwritten : Written c.mode page ooboffs ooblen p col
    · have hfree : IsFree c.mode col := isFree_iff.mpr ⟨hwritten.1, hwritten.2.1⟩
      rw [if_pos hwritten]
      obtain hecc | hbad := hcol
      · obtain ⟨hlarge, rfl⟩ := isFree_isEcc_iff.mp ⟨hfree, hecc⟩
        obtain ⟨-, -, hp, hge, hless⟩ := hwritten
        rw [hnumber] at hge hless ⊢
        have hbyte := hkept hlarge (12 * (p - page) + 4 - ooboffs) (by omega) (by omega)
        rwa [show page + (ooboffs + (12 * (p - page) + 4 - ooboffs)) / 12 = p by omega] at hbyte
      · -- the mark stands between the free areas
        have hpos : 4 ≤ c.mode.badblockpos ∧ c.mode.badblockpos < 8 := by
          cases c.mode <;> decide
        have hin := hwritten.2.1
        rw [hbad, ChipMode.badblockCol, Nat.add_sub_cancel_left] at hin
        unfold InFree at hin
        omega
    · rw [if_neg hwritten]

theorem readable_of_erased (oob : Bytes) (hsmall : c.mode.isNandPage2048 = false)
    (herased : ∀ p col, IsFree c.mode col → c.flash p col = 0xff) (hoffs : ooboffs ≤ oobavail)
    (hshort : ooboffs = 0 ∨ ooblen ≤ oobavail - ooboffs)
    (hreach : Reaches c.mode page ooboffs ooblen) : Readable c page ooblen ooboffs oob := by
  have havail : oobavail = 12 := rfl
  refine ⟨hreach, ?_, fun hlarge => absurd hlarge (by simp [hsmall])⟩
  intro i hi
  have hstays : strayed ooboffs i = i := by
    unfold strayed
    obtain rfl | hless := hshort
    · rw [Nat.zero_mul, Nat.add_zero]
    · rw [div_eq_of_lt (by omega), Nat.mul_zero, Nat.add_zero]
  have hpos : 0 < oobavail - ooboffs := by
    obtain rfl | hless := hshort <;> omega
  have hfree : IsFree c.mode
      (c.mode.pagesize + freeOff (ooboffs + i % (oobavail - ooboffs))) := by
    rw [isFree_iff, Nat.add_sub_cancel_left]
    have hmod := mod_lt i hpos
    exact ⟨Nat.le_add_right _ _, inFree_freeOff (by omega)⟩
  rw [readPlace, herased _ _ hfree, hstays, if_pos hi]
  exact BitVec.allOnes_and

/-- **The round trip of OOB bytes**: a read with the offset of a write returns its bytes exactly if
    they can be read where it looks for them. -/
theorem roundTrips_iff (c : RaNandChip) (start ooblen ooboffs : Nat) (oob : Bytes)
    (hstart : start < c.mode.chipsize) (hoffs : ooboffs ≤ oobavail)
    (hfit : StaysInBlock c.mode (c.mode.pageOf start) ooboffs ooblen) :
    RoundTrips c start ooblen ooboffs oob ↔
      Readable c (c.mode.pageOf start) ooblen ooboffs oob := by
  -- what a write leaves on flash, also if there is nothing to write
  have hwrite : ∀ answers, (c.withAnswers answers).Quiet → (∀ n, (answers n).wp = false) →
      ∃ c' left, (c.withAnswers answers).nandDoWriteOps start (oobOps ooblen ooboffs oob) =
          (c', .ok (), left) ∧ c'.Quiet ∧ c'.mode = c.mode ∧ ∀ p col, c'.flash p col =
        if Written c.mode (c.mode.pageOf start) ooboffs ooblen p col
        then c.flash p col &&& oob (freeNumber c.mode (c.mode.pageOf start) p col - ooboffs)
        else c.flash p col := by
    intro answers hquiet hwp
    unfold nandDoWriteOps
    rcases Nat.eq_zero_or_pos ooblen with rfl | hpos
    · refine ⟨c.withAnswers answers, (oobOps 0 ooboffs oob).start, ?_, hquiet, rfl, ?_⟩
      · dsimp only
        rw [if_neg fun h => h.2 rfl]
        unfold pageLoop
        rw [if_pos ⟨rfl, rfl⟩]
      · intro p col
        rw [if_neg]
        · rfl
        · rintro ⟨-, -, -, hge, hless⟩
          omega
    · obtain ⟨c', hburst, hmode, hanswers, hflash⟩ := writeOobBurst_quiet
        (c := c.withAnswers answers) hquiet (hwp _) hstart hoffs hfit oob
      refine ⟨c', (oobOps ooblen ooboffs oob).start.oobDone ooblen, ?_, fun n => ?_, hmode, hflash⟩
      · dsimp only
        rw [if_pos ⟨rfl, hpos.ne'⟩]
        exact hburst
      · rw [hanswers]
        exact hquiet n
  constructor
  · intro htrip
    obtain ⟨c', left, hok, hquiet, hmode, hflash⟩ := hwrite meekAnswers (fun _ => rfl) fun _ => rfl
    obtain ⟨-, hret, -, hbytes, hecc⟩ := htrip meekAnswers (fun _ => rfl) fun _ => rfl
    rw [hok] at hret hbytes hecc
    obtain ⟨hreach, -, -, hfound⟩ | ⟨-, heio⟩ := oobLoop_reads hquiet (hmode ▸ hstart) hoffs ooblen
      fun _ => 0
    · rw [hmode] at hreach hfound
      refine ⟨hreach, ?_, ?_⟩
      · intro i hi
        have hless : ooboffs < oobavail := by
          by_contra hnot
          have hend : oobavail - ooboffs = 0 := by omega
          rw [Reaches, hend, Nat.mul_zero] at hreach
          omega
        have hat := List.map_inj_left.mp (hfound.symm.trans hbytes) i (List.mem_range.mpr hi)
        rwa [readPlace_written hmode hflash hless] at hat
      · apply ecc_untouched_iff.mp
        intro p col hcol
        rw [← hflash]
        exact hecc p col hcol
    · rw [heio] at hret
      cases hret
  · intro hreadable answers hquiet hwp
    obtain ⟨c', left, hok, hquiet', hmode, hflash⟩ := hwrite answers hquiet hwp
    dsimp only
    rw [hok]
    obtain ⟨-, hret, hretlen, hfound⟩ | ⟨hshort, -⟩ := oobLoop_reads hquiet' (hmode ▸ hstart) hoffs
      ooblen fun _ => 0
    · refine ⟨rfl, hret, hretlen, ?_, ?_⟩
      · rw [hfound, hmode]
        apply List.map_congr_left
        intro i hi
        have hrange := List.mem_range.mp hi
        have hless : ooboffs < oobavail := by
          by_contra hnot
          have hend : oobavail - ooboffs = 0 := by omega
          have hreach := hreadable.reaches
          rw [Reaches, hend, Nat.mul_zero] at hreach
          omega
        rw [readPlace_written hmode hflash hless]
        exact hreadable.bytes i hrange
      · intro p col hcol
        rw [hflash]
        exact ecc_untouched_iff.mpr hreadable.ecc p col hcol
    · rw [hmode] at hshort
      exact absurd hreadable.reaches hshort

/-- Two pages without an offset. -/
theorem roundTrips_twoPages : RoundTrips erasedChip 0 24 0 fun i => BitVec.ofNat 8 (i + 1) := by
  apply (roundTrips_iff erasedChip 0 24 0 _ (by decide) (by decide)
    (by unfold StaysInBlock; decide)).mpr
  apply readable_of_erased _ rfl (fun _ _ _ => rfl) (by decide) (.inl rfl)
  unfold Reaches
  decide

/-- One byte too many for one page, with an offset of one. -/
theorem not_roundTrips_offsetOne : ¬ RoundTrips erasedChip 0 12 1 fun i => BitVec.ofNat 8 (i + 1) := by
  intro htrip
  obtain ⟨-, -, -, hbytes, -⟩ := htrip erasedChip.answers (fun _ => rfl) fun _ => rfl
  revert hbytes
  decide +kernel

end RaNandChip

end RalinkSdk.Nand
