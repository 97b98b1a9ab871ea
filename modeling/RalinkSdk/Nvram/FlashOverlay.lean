import RalinkSdk.Nvram.FlashApi

/-!
# What a write to a flash partition leaves there

The loop of `flash_write` puts a sector where it belongs if the file pointer is at the variable
`to`, or if the sector is read back first, which also brings the pointer there.  So only a write
that begins with whole sectors goes wrong: the pointer is still 0.
-/

namespace RalinkSdk.Nvram

open Lib List Function Nat

variable {cell : Cell} {info : MtdInfo}

/-! ## Stores -/

theorem store_store (flash : Flash) (start : Nat) (bs cs : List UInt8) :
    (flash.store start bs).store (start + bs.length) cs = flash.store start (bs ++ cs) := by
  funext a
  unfold Flash.store
  rw [length_append]
  rcases lt_or_ge a (start + bs.length) with h | h
  · have hnot : ¬ start + bs.length ≤ a := by omega
    rw [if_neg (by omega)]
    by_cases hs : start ≤ a
    · rw [if_pos ⟨hs, h⟩, if_pos ⟨hs, by omega⟩, getD_append _ _ _ _ (by omega)]
    · rw [if_neg (by omega), if_neg (by omega)]
  · by_cases hc : a < start + bs.length + cs.length
    · rw [if_pos ⟨h, hc⟩, if_pos ⟨by omega, by omega⟩, getD_append_right _ _ _ _ (by omega),
        Nat.sub_sub]
    · rw [if_neg (by omega), if_neg (by omega), if_neg (by omega)]

@[simp] theorem store_nil (flash : Flash) (start : Nat) : flash.store start [] = flash := by
  funext a
  unfold Flash.store
  rw [if_neg (by simp)]

theorem program_erased (cell : Cell) (flash : Flash) (start : Nat) (bs : List UInt8) :
    (flash.store start (replicate bs.length 0xFF)).program cell start bs =
      flash.store start bs := by
  funext a
  unfold Flash.program Flash.store
  rw [length_replicate]
  by_cases h : start ≤ a ∧ a < start + bs.length
  · rw [if_pos h, if_pos h, if_pos h, getD_replicate _ (by omega), cell.program_erased]
  · rw [if_neg h, if_neg h, if_neg h]

/-! ## One turn of the loop -/

theorem erasesize_pos (info : MtdInfo) : 0 < info.erasesize := Nat.two_pow_pos _

theorem and_erasesize (info : MtdInfo) (n : Nat) :
    n &&& (info.erasesize - 1) = n % info.erasesize :=
  and_two_pow_sub_one_eq_mod n info.eraseShift

theorem sector_le_size {dest : Nat} (h : dest < info.size) :
    dest - dest % info.erasesize + info.erasesize ≤ info.size := by
  obtain ⟨k, hk⟩ : info.erasesize ∣ info.size := info.whole
  have hpos := erasesize_pos info
  have hdiv := div_add_mod dest info.erasesize
  have hlt : dest / info.erasesize < k := by
    rw [Nat.div_lt_iff_lt_mul hpos, Nat.mul_comm, ← hk]
    exact h
  have hmul : info.erasesize * (dest / info.erasesize + 1) ≤ info.erasesize * k :=
    Nat.mul_le_mul_left _ hlt
  rw [Nat.mul_add, Nat.mul_one] at hmul
  omega

theorem write_inside {fd : Fd} {bs : List UInt8} (hne : 0 < bs.length)
    (hfit : fd.pos + bs.length ≤ info.size) : fd.write cell info bs = some (bs.length,
      ⟨fd.content.program cell fd.pos bs, fd.pos + bs.length⟩) := by
  have htake : bs.take (info.size - fd.pos) = bs := take_of_length_le (by omega)
  unfold Fd.write
  rw [if_neg (by omega)]
  simp only [htake]

theorem memErase_sector {fd : Fd} {start : Nat} (hstart : start % info.erasesize = 0)
    (hsize : start < info.size) : fd.memErase info start info.erasesize = some
      { fd with content := fd.content.store start (replicate info.erasesize 0xFF) } := by
  unfold Fd.memErase
  rw [if_neg]
  rintro (h | h | h)
  · omega
  · exact h hstart
  · exact h (mod_self _)

theorem writeLoopBody_whole {s : WriteLoop} (hne : s.buf ≠ [])
    (hlen : s.buf.length % info.erasesize = 0) (hdest : s.dest % info.erasesize = 0)
    (hsize : s.dest < info.size) (hpos : s.fd.pos + info.erasesize ≤ info.size) :
    writeLoopBody cell info s = .ok
      ⟨⟨(s.fd.content.store s.dest (replicate info.erasesize 0xFF)).program cell s.fd.pos
          (s.buf.take info.erasesize), s.fd.pos + info.erasesize⟩,
        s.dest + info.erasesize, s.buf.drop info.erasesize, info.erasesize⟩ := by
  have hes := erasesize_pos info
  have hle : info.erasesize ≤ s.buf.length :=
    le_of_dvd (length_pos_iff.mpr hne) (dvd_of_mod_eq_zero hlen)
  have hlength : (s.buf.take info.erasesize).length = info.erasesize := by
    rw [length_take, Nat.min_eq_left hle]
  have hwrite : ∀ content : Flash,
      Fd.write cell info ⟨content, s.fd.pos⟩ (s.buf.take info.erasesize) = some (info.erasesize,
        ⟨content.program cell s.fd.pos (s.buf.take info.erasesize),
          s.fd.pos + info.erasesize⟩) := by
    intro content
    rw [write_inside (by omega) (by rw [hlength]; exact hpos), hlength]
  simp only [writeLoopBody, and_erasesize, hlen, ne_eq, not_true_eq_false, false_or,
    Nat.not_lt.mpr hle, if_false, memErase_sector hdest hsize, hwrite]

theorem writeLoopBody_refused {s : WriteLoop} (hne : s.buf ≠ [])
    (hlen : s.buf.length % info.erasesize = 0) (hdest : s.dest % info.erasesize ≠ 0) :
    writeLoopBody cell info s = .error s.fd := by
  have hle : info.erasesize ≤ s.buf.length :=
    le_of_dvd (length_pos_iff.mpr hne) (dvd_of_mod_eq_zero hlen)
  have herase : s.fd.memErase info s.dest info.erasesize = none := by
    unfold Fd.memErase
    rw [if_pos (.inr (.inl hdest))]
  simp only [writeLoopBody, and_erasesize, hlen, ne_eq, not_true_eq_false, false_or,
    Nat.not_lt.mpr hle, if_false, herase]

theorem writeLoopBody_piece {s : WriteLoop} (hlen : s.buf.length % info.erasesize ≠ 0)
    (hsize : s.dest < info.size) : writeLoopBody cell info s = .ok ⟨⟨s.fd.content.store s.dest
          (s.buf.take (min s.buf.length (info.erasesize - s.dest % info.erasesize))),
          s.dest - s.dest % info.erasesize + info.erasesize⟩,
        s.dest + min s.buf.length (info.erasesize - s.dest % info.erasesize),
        s.buf.drop (min s.buf.length (info.erasesize - s.dest % info.erasesize)),
        info.erasesize⟩ := by
  have hes := erasesize_pos info
  have hmod := mod_lt s.dest hes
  have hmodle := mod_le s.dest info.erasesize
  have hsector := sector_le_size hsize
  -- the address of the sector
  obtain ⟨bakaddr, hbak⟩ : ∃ b, b = s.dest - s.dest % info.erasesize := ⟨_, rfl⟩
  obtain ⟨ps, hps⟩ : ∃ n, n = min s.buf.length (info.erasesize - s.dest % info.erasesize) :=
    ⟨_, rfl⟩
  have haddr : bakaddr + s.dest % info.erasesize = s.dest := by omega
  have hbase : bakaddr % info.erasesize = 0 := by
    rw [hbak]
    exact sub_mod_eq_zero_of_mod_eq (mod_mod _ _).symm
  have hpiece : (s.buf.take ps).length = ps := by
    rw [length_take]
    omega
  have hread : Fd.read info ⟨s.fd.content, bakaddr⟩ info.erasesize =
      (raMtdReadNm s.fd.content bakaddr info.erasesize,
        ⟨s.fd.content, bakaddr + info.erasesize⟩) := by
    have hcount : min info.erasesize (info.size - bakaddr) = info.erasesize := by omega
    simp only [Fd.read, hcount]
  have hpatch : memWrite (raMtdReadNm s.fd.content bakaddr info.erasesize)
        (s.dest % info.erasesize) (s.buf.take ps) =
      raMtdReadNm (s.fd.content.store s.dest (s.buf.take ps)) bakaddr info.erasesize := by
    rw [memWrite_raMtdReadNm _ _ (by omega), haddr]
  -- the cells of the sector are erased, so the write is a store
  have hwrite : Fd.write cell info
        ⟨s.fd.content.store bakaddr (replicate info.erasesize 0xFF), bakaddr⟩
        (raMtdReadNm (s.fd.content.store s.dest (s.buf.take ps)) bakaddr info.erasesize) =
      some (info.erasesize, ⟨s.fd.content.store s.dest (s.buf.take ps),
        bakaddr + info.erasesize⟩) := by
    have hprogram := program_erased cell s.fd.content bakaddr
      (raMtdReadNm (s.fd.content.store s.dest (s.buf.take ps)) bakaddr info.erasesize)
    rw [length_raMtdReadNm] at hprogram
    have hstore : s.fd.content.store bakaddr
          (raMtdReadNm (s.fd.content.store s.dest (s.buf.take ps)) bakaddr info.erasesize) =
        s.fd.content.store s.dest (s.buf.take ps) := by
      rw [← haddr]
      exact store_patched s.fd.content (by omega)
    have hlength := length_raMtdReadNm (s.fd.content.store s.dest (s.buf.take ps)) bakaddr
      info.erasesize
    have hend : bakaddr + info.erasesize ≤ info.size := by omega
    rw [write_inside (by rw [hlength]; exact hes) (by rw [hlength]; exact hend), hlength, hprogram,
      hstore]
  have hcond : s.buf.length % info.erasesize ≠ 0 ∨ s.buf.length < info.erasesize := .inl hlen
  simp only [writeLoopBody, and_erasesize, if_pos hcond, ← hbak, ← hps, Fd.lseek, hread, hpatch,
    memErase_sector hbase (by omega : bakaddr < info.size), hwrite]

/-! ## The loop with the file pointer in place -/

/-- Whole sectors that are left go to the file pointer, and this is where they belong. -/
def Synced (info : MtdInfo) (s : WriteLoop) : Prop :=
  s.buf.length % info.erasesize = 0 → s.buf = [] ∨ (s.fd.pos = s.dest ∧ s.dest % info.erasesize = 0)

theorem synced_piece {s : WriteLoop} : Synced info ⟨⟨s.fd.content.store s.dest
          (s.buf.take (min s.buf.length (info.erasesize - s.dest % info.erasesize))),
          s.dest - s.dest % info.erasesize + info.erasesize⟩,
        s.dest + min s.buf.length (info.erasesize - s.dest % info.erasesize),
        s.buf.drop (min s.buf.length (info.erasesize - s.dest % info.erasesize)),
        info.erasesize⟩ := by
  intro _
  have hmod := mod_lt s.dest (erasesize_pos info)
  have hmodle := mod_le s.dest info.erasesize
  rcases Nat.le_total s.buf.length (info.erasesize - s.dest % info.erasesize) with h | h
  · left
    rw [Nat.min_eq_left h]
    exact drop_length
  · -- the piece ends with its sector
    right
    rw [Nat.min_eq_right h]
    have hend : s.dest - s.dest % info.erasesize + info.erasesize =
        s.dest + (info.erasesize - s.dest % info.erasesize) := by omega
    refine ⟨hend, ?_⟩
    show (s.dest + (info.erasesize - s.dest % info.erasesize)) % info.erasesize = 0
    rw [← hend, add_mod_right]
    exact sub_mod_eq_zero_of_mod_eq (mod_mod _ _).symm

/-- **In place**: the loop is an overlay of the buffer. -/
theorem writeLoop_synced (fuel : Nat) (s : WriteLoop) (hfuel : s.buf.length ≤ fuel)
    (hsize : s.dest + s.buf.length ≤ info.size) (hsync : Synced info s) :
    (writeLoop cell info fuel s).2 = s.fd.content.store s.dest s.buf := by
  have hes := erasesize_pos info
  induction fuel generalizing s with
  | zero =>
    have hnil : s.buf = [] := length_eq_zero_iff.mp (le_zero.mp hfuel)
    rw [hnil, store_nil]
    rfl
  | succ fuel ih =>
    unfold writeLoop
    by_cases hne : s.buf = []
    · rw [if_pos hne, hne, store_nil]
    · have hpos := length_pos_iff.mpr hne
      rw [if_neg hne]
      by_cases hlen : s.buf.length % info.erasesize = 0
      · obtain ⟨hat, hdest⟩ := (hsync hlen).resolve_left hne
        have hle : info.erasesize ≤ s.buf.length :=
          le_of_dvd hpos (dvd_of_mod_eq_zero hlen)
        have htake : (s.buf.take info.erasesize).length = info.erasesize := by
          rw [length_take, Nat.min_eq_left hle]
        have hstore := program_erased cell s.fd.content s.dest
          (s.buf.take info.erasesize)
        rw [htake] at hstore
        rw [writeLoopBody_whole hne hlen hdest (by omega) (by omega), hat, hstore]
        show (writeLoop cell info fuel ⟨_, _, _, _⟩).2 = _
        rw [ih]
        · have hjoin := store_store s.fd.content s.dest (s.buf.take info.erasesize)
            (s.buf.drop info.erasesize)
          rw [htake, take_append_drop] at hjoin
          exact hjoin
        · simp only [length_drop]
          omega
        · simp only [length_drop]
          omega
        · intro _
          right
          exact ⟨rfl, by simp only [add_mod_right, hdest]⟩
      · rw [writeLoopBody_piece hlen (by omega)]
        have hmod := mod_lt s.dest hes
        show (writeLoop cell info fuel ⟨_, _, _, _⟩).2 = _
        rw [ih _ _ _ synced_piece]
        · have hjoin := store_store s.fd.content s.dest
            (s.buf.take (min s.buf.length (info.erasesize - s.dest % info.erasesize)))
            (s.buf.drop (min s.buf.length (info.erasesize - s.dest % info.erasesize)))
          rw [length_take, Nat.min_eq_left (Nat.min_le_left _ _), take_append_drop] at hjoin
          exact hjoin
        · simp only [length_drop]
          omega
        · simp only [length_drop]
          omega

/-! ## Whole sectors at another place -/

/-- What the loop leaves when it erases whole sectors from `dest` on and writes them from `pos` on,
    not behind `dest`. -/
def sectorsAt (cell : Cell) (flash : Flash) (pos dest : Nat) (buf : List UInt8) : Flash := fun a =>
  if pos ≤ a ∧ a < pos + buf.length then
    cell.program (if dest ≤ a then 0xFF else flash a) (buf.getD (a - pos) 0)
  else if dest ≤ a ∧ a < dest + buf.length then 0xFF
  else flash a

theorem sectorsAt_step (flash : Flash) {pos dest n : Nat} {buf : List UInt8} (hle : pos ≤ dest)
    (hn : n ≤ buf.length) :
    sectorsAt cell ((flash.store dest (replicate n 0xFF)).program cell pos (buf.take n))
      (pos + n) (dest + n) (buf.drop n) = sectorsAt cell flash pos dest buf := by
  have htake : (buf.take n).length = n := by
    rw [length_take, Nat.min_eq_left hn]
  funext a
  unfold sectorsAt Flash.program
  rw [length_drop, htake]
  -- the cell after the erase
  have herased : flash.store dest (replicate n 0xFF) a =
      if dest ≤ a ∧ a < dest + n then 0xFF else flash a := by
    unfold Flash.store
    rw [length_replicate]
    split
    · exact getD_replicate _ (by omega)
    · rfl
  rw [herased]
  rcases lt_or_ge a (pos + n) with hfirst | hrest
  · -- no later sector reaches this cell
    have hlater : ¬ (pos + n ≤ a ∧ a < pos + n + (buf.length - n)) := by omega
    have herase : ¬ (dest + n ≤ a ∧ a < dest + n + (buf.length - n)) := by omega
    rw [if_neg hlater, if_neg herase]
    by_cases hp : pos ≤ a
    · have hin : pos ≤ a ∧ a < pos + buf.length := ⟨hp, by omega⟩
      have hiff : (dest ≤ a ∧ a < dest + n) ↔ dest ≤ a := ⟨And.left, fun h => ⟨h, by omega⟩⟩
      have hget : (buf.take n).getD (a - pos) 0 = buf.getD (a - pos) 0 := by
        rw [getD_eq_getElem?_getD, getD_eq_getElem?_getD,
          getElem?_take_of_lt (by omega)]
      simp only [hp, hfirst, hin, hiff, hget, and_self, if_true]
    · have hd : ¬ dest ≤ a := by omega
      simp only [hp, hd, false_and, if_false]
  · have hfirst : ¬ (pos ≤ a ∧ a < pos + n) := by omega
    rw [if_neg hfirst]
    by_cases hin : a < pos + buf.length
    · -- in a sector that is written later
      have hlater : pos + n ≤ a ∧ a < pos + n + (buf.length - n) := ⟨hrest, by omega⟩
      have hwritten : pos ≤ a ∧ a < pos + buf.length := ⟨by omega, hin⟩
      have hget : (buf.drop n).getD (a - (pos + n)) 0 = buf.getD (a - pos) 0 := by
        have hidx : n + (a - (pos + n)) = a - pos := by omega
        rw [getD_eq_getElem?_getD, getD_eq_getElem?_getD, getElem?_drop, hidx]
      rw [if_pos hlater, if_pos hwritten, hget]
      congr 1
      by_cases hd : dest ≤ a
      · rw [if_pos hd]
        by_cases hd' : dest + n ≤ a
        · rw [if_pos hd']
        · have hsector : dest ≤ a ∧ a < dest + n := ⟨hd, by omega⟩
          rw [if_neg hd', if_pos hsector]
      · have hd' : ¬ dest + n ≤ a := by omega
        simp only [hd, hd', false_and, if_false]
    · -- behind all that is written
      have hlater : ¬ (pos + n ≤ a ∧ a < pos + n + (buf.length - n)) := by omega
      have hwritten : ¬ (pos ≤ a ∧ a < pos + buf.length) := by omega
      rw [if_neg hlater, if_neg hwritten]
      by_cases hd : dest ≤ a ∧ a < dest + n
      · have hd' : dest ≤ a ∧ a < dest + buf.length := ⟨hd.1, by omega⟩
        rw [if_pos hd, if_pos hd', ite_self]
      · have hiff : (dest + n ≤ a ∧ a < dest + n + (buf.length - n)) ↔
            dest ≤ a ∧ a < dest + buf.length := by omega
        simp only [hiff, if_neg hd]

/-- **Whole sectors**: where they go, with the file pointer anywhere before `dest`. -/
theorem writeLoop_whole (fuel : Nat) (s : WriteLoop) (hfuel : s.buf.length ≤ fuel)
    (hsize : s.dest + s.buf.length ≤ info.size) (hlen : s.buf.length % info.erasesize = 0)
    (hdest : s.dest % info.erasesize = 0) (hle : s.fd.pos ≤ s.dest) :
    (writeLoop cell info fuel s).2 = sectorsAt cell s.fd.content s.fd.pos s.dest s.buf := by
  have hes := erasesize_pos info
  have hempty : ∀ s : WriteLoop, s.buf = [] →
      s.fd.content = sectorsAt cell s.fd.content s.fd.pos s.dest s.buf := by
    intro s hnil
    funext a
    rw [hnil, sectorsAt, if_neg (by simp), if_neg (by simp)]
  induction fuel generalizing s with
  | zero => exact hempty s (length_eq_zero_iff.mp (le_zero.mp hfuel))
  | succ fuel ih =>
    unfold writeLoop
    by_cases hne : s.buf = []
    · rw [if_pos hne]
      exact hempty s hne
    · have hsector : info.erasesize ≤ s.buf.length :=
        le_of_dvd (length_pos_iff.mpr hne) (dvd_of_mod_eq_zero hlen)
      rw [if_neg hne, writeLoopBody_whole hne hlen hdest (by omega) (by omega)]
      show (writeLoop cell info fuel ⟨_, _, _, _⟩).2 = _
      rw [ih, ← sectorsAt_step s.fd.content hle hsector]
      · simp only [length_drop]
        omega
      · simp only [length_drop]
        omega
      · rw [length_drop]
        exact sub_mod_eq_zero_of_mod_eq (hlen.trans (mod_self _).symm)
      · simp only [add_mod_right, hdest]
      · simp only
        omega

theorem sectorsAt_eq_store_iff (flash : Flash) {dest : Nat} (hdest : 0 < dest) (buf : List UInt8) :
    sectorsAt cell flash 0 dest buf = flash.store dest buf ↔
      (∀ i, i < buf.length → buf.getD i 0 = 0xFF) ∧
        ∀ a, a < dest → a < buf.length → cell.program (flash a) 0xFF = flash a := by
  constructor
  · intro h
    -- from the end of the buffer to its beginning: what is written at `i` is what is erased or
    -- written at `dest + i`
    have hones : ∀ n i, i < buf.length → buf.length - i ≤ n → buf.getD i 0 = 0xFF := by
      intro n
      induction n with
      | zero =>
        intro i hi hn
        omega
      | succ n ih =>
        intro i hi hn
        have hat := congrFun h (dest + i)
        rw [Flash.store, if_pos (by omega), Nat.add_sub_cancel_left] at hat
        rw [← hat, sectorsAt, Nat.zero_add, Nat.sub_zero, if_pos (by omega : dest ≤ dest + i)]
        by_cases hin : dest + i < buf.length
        · rw [if_pos ⟨Nat.zero_le _, hin⟩, cell.program_erased]
          exact ih (dest + i) hin (by omega)
        · rw [if_neg (by omega), if_pos (by omega)]
    refine ⟨fun i hi => hones _ i hi le_rfl, fun a ha hlt => ?_⟩
    have hat := congrFun h a
    rw [Flash.store, if_neg (by omega), sectorsAt, if_pos (by omega), if_neg (by omega),
      Nat.sub_zero, hones _ a hlt le_rfl] at hat
    exact hat
  · rintro ⟨hones, hsame⟩
    funext a
    unfold sectorsAt Flash.store
    rw [Nat.zero_add, Nat.sub_zero]
    by_cases hd : dest ≤ a
    · by_cases hin : a < dest + buf.length
      · rw [if_pos (⟨hd, hin⟩ : dest ≤ a ∧ a < dest + buf.length), hones (a - dest) (by omega)]
        by_cases hlt : a < buf.length
        · rw [if_pos ⟨Nat.zero_le _, hlt⟩, if_pos hd, cell.program_erased, hones a hlt,
            if_pos ⟨hd, hin⟩]
        · rw [if_neg (by omega), if_pos ⟨hd, hin⟩]
      · rw [if_neg (by omega), if_neg (by omega), if_neg (by omega)]
    · by_cases hlt : a < buf.length
      · rw [if_pos ⟨Nat.zero_le _, hlt⟩, if_neg hd, if_neg (by omega), hones a hlt]
        exact hsame a (by omega) hlt
      · rw [if_neg (by omega), if_neg (by omega), if_neg (by omega)]

/-! ## The two functions -/

/-- The write is right: it begins with a piece or at 0, there is nothing to write, or what goes
    wrong makes no difference.  At the beginning of a sector this is so if the buffer is all ones
    and writing ones to the cells from 0 on does nothing; elsewhere nothing is written at all. -/
def WriteInPlace (cell : Cell) (info : MtdInfo) (content : Flash) (dest : Nat)
    (buf : List UInt8) : Prop :=
  buf = [] ∨ buf.length % info.erasesize ≠ 0 ∨ dest = 0 ∨
    (dest % info.erasesize = 0 ∧ (∀ i, i < buf.length → buf.getD i 0 = 0xFF) ∧
      ∀ a, a < dest → a < buf.length → cell.program (content a) 0xFF = content a) ∨
    (dest % info.erasesize ≠ 0 ∧ ∀ i, i < buf.length → content (dest + i) = buf.getD i 0)

theorem eq_store_iff (flash : Flash) (start : Nat) (buf : List UInt8) :
    flash = flash.store start buf ↔
      ∀ i, i < buf.length → flash (start + i) = buf.getD i 0 := by
  constructor
  · intro h i hi
    have hat := congrFun h (start + i)
    rw [Flash.store, if_pos (by omega), Nat.add_sub_cancel_left] at hat
    exact hat
  · intro h
    funext a
    unfold Flash.store
    split
    · next hin =>
      have hat := h (a - start) (by omega)
      rw [Nat.add_sub_cancel' hin.1] at hat
      exact hat
    · rfl

theorem flashWriteMtd_iff (cell : Cell) (info : MtdInfo) (content : Flash) {dest : Nat}
    {buf : List UInt8} (hsize : dest + buf.length ≤ info.size) :
    (flashWriteMtd cell info content buf dest).2 = content.store dest buf ↔
      WriteInPlace cell info content dest buf := by
  unfold flashWriteMtd
  rw [if_neg (by omega)]
  by_cases hsync : Synced info ⟨⟨content, 0⟩, dest, buf, 0⟩
  · -- the file pointer is in place from the start
    refine iff_of_true (writeLoop_synced _ _ le_rfl hsize hsync) ?_
    by_cases hlen : buf.length % info.erasesize = 0
    · rcases hsync hlen with hnil | ⟨hzero, -⟩
      · exact .inl hnil
      · exact .inr (.inr (.inl hzero.symm))
    · exact .inr (.inl hlen)
  · obtain ⟨hlen, hnot⟩ := Classical.not_imp.mp hsync
    obtain ⟨hne, hpos⟩ := not_or.mp hnot
    change ¬ buf = [] at hne
    change buf.length % info.erasesize = 0 at hlen
    change ¬ (0 = dest ∧ dest % info.erasesize = 0) at hpos
    have hzero : dest ≠ 0 := by
      rintro rfl
      exact hpos ⟨rfl, zero_mod _⟩
    by_cases hdest : dest % info.erasesize = 0
    · rw [writeLoop_whole buf.length ⟨⟨content, 0⟩, dest, buf, 0⟩ le_rfl hsize hlen hdest
        (Nat.zero_le _), sectorsAt_eq_store_iff content (Nat.pos_of_ne_zero hzero)]
      simp [WriteInPlace, hne, hlen, hzero, hdest]
    · have hrefused : writeLoop cell info buf.length ⟨⟨content, 0⟩, dest, buf, 0⟩ =
          (-1, content) := by
        obtain ⟨n, hn⟩ := exists_eq_succ_of_ne_zero (mt length_eq_zero_iff.mp hne)
        rw [hn, writeLoop, if_neg hne, writeLoopBody_refused hne hlen hdest]
      rw [hrefused, eq_store_iff]
      simp [WriteInPlace, hne, hlen, hzero, hdest]

/-- **When a write is an overlay.**  `flash_write` and `flash_write_ralink_eeprom` leave their
    partition as it was with the buffer at `dest`, and every other partition as it was, if and only
    if the write is in place. -/
theorem flash_write_overlay_iff (m : Mtds) (dest : Nat) (buf : List UInt8)
    (hconfig : dest + buf.length ≤ (m.info .config).size)
    (hfactory : dest + buf.length ≤ (m.info .factory).size) : ((m.flashWrite buf dest).2.content =
        Function.update m.content .config ((m.content .config).store dest buf) ↔
      WriteInPlace m.cell (m.info .config) (m.content .config) dest buf) ∧
    ((m.flashWriteRalinkEeprom buf dest).2.content =
        Function.update m.content .factory ((m.content .factory).store dest buf) ↔
      WriteInPlace m.cell (m.info .factory) (m.content .factory) dest buf) := by
  have hnamed : ∀ name, dest + buf.length ≤ (m.info name).size →
      ((m.flashWriteNamed name buf dest).2.content =
          Function.update m.content name ((m.content name).store dest buf) ↔
        WriteInPlace m.cell (m.info name) (m.content name) dest buf) := by
    intro name hsize
    rw [← flashWriteMtd_iff m.cell (m.info name) (m.content name) hsize]
    exact (Function.update_injective m.content name).eq_iff
  exact ⟨hnamed .config hconfig, hnamed .factory hfactory⟩

/-- A cell of NOR flash: a write clears bits. -/
def norCell : Cell where
  program old new := old &&& new
  program_erased := by
    intro b
    apply UInt8.toBitVec_inj.mp
    exact BitVec.allOnes_and

/-- Two partitions of two sectors of two bytes, all erased. -/
def smallMtds : Mtds where
  cell := norCell
  info := fun _ => ⟨4, 1, by decide⟩
  content := fun _ _ => 0xFF

/-- A byte in the second sector. -/
theorem flash_write_overlay_piece : (smallMtds.flashWrite [5] 3).2.content =
        Function.update smallMtds.content .config ((smallMtds.content .config).store 3 [5]) ∧
      (smallMtds.flashWriteRalinkEeprom [5] 3).2.content =
        Function.update smallMtds.content .factory ((smallMtds.content .factory).store 3 [5]) := by
  have h := flash_write_overlay_iff smallMtds 3 [5] (by decide) (by decide)
  exact ⟨h.1.mpr (.inr (.inl (by decide))), h.2.mpr (.inr (.inl (by decide)))⟩

/-- The second sector as a whole goes to the first one. -/
theorem flash_write_at_zero : ¬ ∀ (m : Mtds) (dest : Nat) (buf : List UInt8),
      dest + buf.length ≤ (m.info .config).size →
      (m.flashWrite buf dest).2.content =
        Function.update m.content .config ((m.content .config).store dest buf) := by
  intro h
  have hat := congrFun (congrFun (h smallMtds 2 [1, 2] (by decide)) .config) 0
  -- the first byte of the buffer is at 0
  revert hat
  decide

end RalinkSdk.Nvram
