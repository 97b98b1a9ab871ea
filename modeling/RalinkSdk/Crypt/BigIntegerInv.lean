import RalinkSdk.Crypt.BigInteger

/-!
# The number in a big integer

What the words of a `BIG_INTEGER` stand for, when its length bounds the number and when its length
is that of the number, and what allocating, copying, comparing and trimming make of them.
-/

namespace RalinkSdk.Crypt

open Lib List Nat

namespace BigInteger

/-! ## Numbers -/

/-- The number without its sign. -/
def magnitude (bi : BigInteger) : Nat := wordsNat bi.words

/-- The integer. -/
def value (bi : BigInteger) : Int := bi.signed * bi.magnitude

/-- The number `v` in memory, in a length that bounds it. -/
structure Holds (bi : BigInteger) (v : Nat) : Prop where
  memory : bi.arrayLength ≤ bi.integerArray.length
  magnitude : bi.magnitude = v
  arrayLength : bi.arrayLength = wordsFor bi.integerLength
  length_pos : 0 < bi.integerLength
  lt : v < 256 ^ bi.integerLength

/-- Its length has no byte too much. -/
structure Exact (bi : BigInteger) (v : Nat) : Prop extends Holds bi v where
  le : bi.integerLength = 1 ∨ 256 ^ (bi.integerLength - 1) ≤ v

/-- A signed integer whose length bounds its value; zero bytes may lead. -/
structure Bounded (bi : BigInteger) : Prop where
  holds : bi.Holds bi.magnitude
  signed : bi.signed = 1 ∨ bi.signed = -1

/-- A normalised integer: its length is exact, and 0 is positive. -/
structure Normal (bi : BigInteger) : Prop where
  exact : bi.Exact bi.magnitude
  signed : bi.signed = 1 ∨ bi.signed = -1
  zero : bi.magnitude = 0 → bi.signed = 1

theorem pow_words (n : Nat) : 2 ^ (32 * n) = 256 ^ (4 * n) := by
  rw [show (256 : Nat) = 2 ^ 8 from rfl, ← pow_mul, ← Nat.mul_assoc]

theorem wordsFor_eq (n : Nat) : wordsFor n = (n + 3) / 4 := by
  unfold wordsFor
  split_ifs <;> omega

theorem le_wordsFor (n : Nat) : n ≤ 4 * wordsFor n := by
  rw [wordsFor_eq]
  omega

theorem wordsFor_pos {n : Nat} (h : 0 < n) : 0 < wordsFor n := by
  rw [wordsFor_eq]
  omega

variable {bi : BigInteger} {v : Nat}

theorem Holds.arrayLength_pos (h : bi.Holds v) : 0 < bi.arrayLength := by
  rw [h.arrayLength]
  exact wordsFor_pos h.length_pos

theorem Holds.array_ne_nil (h : bi.Holds v) : bi.integerArray ≠ [] := by
  have hpos := h.arrayLength_pos
  have hle := h.memory
  intro hnil
  rw [hnil, length_nil] at hle
  omega

theorem Holds.length_words (h : bi.Holds v) : bi.words.length = bi.arrayLength := by
  rw [words, length_take_of_le h.memory]

theorem Holds.head_eq (h : bi.Holds v) (hone : bi.integerLength = 1) :
    (bi.integerArray.getD 0 0).toNat = v := by
  have hlen : bi.arrayLength = 1 := by
    rw [h.arrayLength, hone]
    rfl
  obtain ⟨x, xs, hxs⟩ := exists_cons_of_ne_nil h.array_ne_nil
  have hvalue := h.magnitude
  rw [BigInteger.magnitude, words, hlen, hxs, take_succ_cons, take_zero, wordsNat_cons, wordsNat_nil] at hvalue
  rw [hxs, getD_cons_zero]
  exact hvalue

theorem Holds.isByte_iff (h : bi.Holds v) (x : BitVec 32) :
    bi.isByte x ↔ bi.integerLength = 1 ∧ v = x.toNat := by
  unfold isByte
  refine and_congr_right fun hone => ?_
  rw [← h.head_eq hone, ← BitVec.toNat_inj]

/-! ## Memory -/

section

variable (bi : BigInteger) {n : Nat} (h : 0 < n)

include h

theorem allocSize_array : (bi.allocSize n).integerArray =
    replicate (max bi.integerArray.length (wordsFor n)) 0 := by
  rw [allocSize, if_neg h.ne']
  simp only
  split_ifs with hsmall
  · rw [init, length_nil, Nat.zero_max, max_eq_right hsmall.2.le]
  · rfl

theorem allocSize_arrayLength : (bi.allocSize n).arrayLength = wordsFor n := by
  rw [allocSize, if_neg h.ne']

theorem allocSize_integerLength : (bi.allocSize n).integerLength = n := by
  rw [allocSize, if_neg h.ne']

theorem allocSize_signed : (bi.allocSize n).signed =
    if bi.integerArray ≠ [] ∧ bi.integerArray.length < wordsFor n then 1 else bi.signed := by
  rw [allocSize, if_neg h.ne']
  simp only
  split_ifs <;> rfl

theorem allocSize_length : (bi.allocSize n).integerArray.length =
    max bi.integerArray.length (wordsFor n) := by
  rw [allocSize_array bi h, length_replicate]

/-- **`BigInteger_AllocSize`** leaves 0. -/
theorem allocSize_holds : (bi.allocSize n).Holds 0 where
  memory := by
    rw [allocSize_length bi h, allocSize_arrayLength bi h]
    exact le_max_right _ _
  magnitude := by
    rw [BigInteger.magnitude, words, allocSize_array bi h, take_replicate, wordsNat_replicate]
  arrayLength := by rw [allocSize_arrayLength bi h, allocSize_integerLength bi h]
  length_pos := by
    rw [allocSize_integerLength bi h]
    exact h
  lt := Nat.pow_pos (by decide)

end

theorem allocSize_one_exact (bi : BigInteger) : (bi.allocSize 1).Exact 0 :=
  ⟨allocSize_holds bi Nat.one_pos, .inl (allocSize_integerLength bi Nat.one_pos)⟩

/-- **`BigInteger_Copy`** keeps the memory of the target if it is large enough. -/
theorem copy_eq (h : bi.Holds v) (target : BigInteger) : copy bi target = some
      { integerArray := bi.words ++
          replicate (max target.integerArray.length bi.arrayLength - bi.arrayLength) 0
        arrayLength := bi.arrayLength
        integerLength := bi.integerLength
        signed := bi.signed } := by
  have hlen : (target.allocSize bi.integerLength).arrayLength = bi.arrayLength := by
    rw [allocSize_arrayLength _ h.length_pos, h.arrayLength]
  simp only [copy]
  rw [hlen, if_neg (Nat.not_lt.mpr h.memory), allocSize_array _ h.length_pos, drop_replicate,
    ← h.arrayLength]
  rfl

theorem Holds.of_words {bi bi' : BigInteger} (h : bi.Holds v) {k : Nat}
    (harray : bi'.integerArray = bi.words ++ replicate k 0)
    (hlen : bi'.arrayLength = bi.arrayLength) (hbytes : bi'.integerLength = bi.integerLength) :
    bi'.Holds v where
  memory := by
    rw [harray, hlen, length_append, h.length_words]
    exact Nat.le_add_right _ _
  magnitude := by
    rw [BigInteger.magnitude, words, harray, hlen, ← h.length_words, take_left]
    exact h.magnitude
  arrayLength := by rw [hlen, hbytes, h.arrayLength]
  length_pos := hbytes ▸ h.length_pos
  lt := hbytes ▸ h.lt

theorem copy_holds (h : bi.Holds v) (target : BigInteger) :
    ∃ result, copy bi target = some result ∧ result.Holds v ∧
      result.integerLength = bi.integerLength ∧ result.signed = bi.signed :=
  ⟨_, copy_eq h target, h.of_words rfl rfl rfl, rfl, rfl⟩

theorem copy_exact (h : bi.Exact v) (target : BigInteger) :
    ∃ result, copy bi target = some result ∧ result.Exact v ∧ result.signed = bi.signed :=
  ⟨_, copy_eq h.toHolds target, ⟨h.toHolds.of_words rfl rfl rfl, h.le⟩, rfl⟩

/-! ## The exact length -/

theorem uint32GetByte_toNat (x : BitVec 32) {k : Nat} (h : k < 4) :
    (uint32GetByte x (BitVec.ofNat 32 k)).toNat = x.toNat / 256 ^ k % 256 := by
  have hshift : (BitVec.ofNat 32 k * 8).toNat % 32 = 8 * k := by
    rw [BitVec.toNat_mul, BitVec.toNat_ofNat]
    simp only [show (8 : BitVec 32).toNat = 8 from rfl]
    omega
  rw [uint32GetByte, hshift, BitVec.toNat_setWidth, BitVec.toNat_ushiftRight,
    shiftRight_eq_div_pow, pow_mul]
  rfl

theorem highByte_spec {x : BitVec 32} {n : Nat} (hn : n ≤ 4) (hx : x.toNat < 256 ^ n)
    (hne : x ≠ 0) :
    256 ^ highByte x n ≤ x.toNat ∧ x.toNat < 256 ^ (highByte x n + 1) ∧ highByte x n < 4 := by
  induction n with
  | zero =>
    have hzero : x = 0 := BitVec.eq_of_toNat_eq (Nat.lt_one_iff.mp hx)
    exact absurd hzero hne
  | succ n ih =>
    have hbyte := uint32GetByte_toNat x (lt_of_succ_le hn)
    have hdiv : x.toNat / 256 ^ n < 256 := Nat.div_lt_of_lt_mul (by rw [← pow_succ]; exact hx)
    rw [mod_eq_of_lt hdiv] at hbyte
    have hpow : 0 < 256 ^ n := Nat.pow_pos (by decide)
    rw [highByte]
    split_ifs with hzero
    · rw [hzero] at hbyte
      have hlt : x.toNat < 256 ^ n := by
        by_contra hge
        have := (Nat.one_le_div_iff hpow).mpr (Nat.not_lt.mp hge)
        rw [← hbyte] at this
        cases this
      exact ih (le_of_succ_le hn) hlt
    · refine ⟨?_, hx, hn⟩
      by_contra hlt
      rw [div_eq_of_lt (Nat.not_le.mp hlt)] at hbyte
      exact hzero (BitVec.eq_of_toNat_eq hbyte)

variable {ws : List (BitVec 32)}

theorem highWord_eq_none {n : Nat} (hn : n ≤ ws.length)
    (h : highWord ws n = none) : wordsNat (ws.take n) = 0 := by
  induction n with
  | zero => rfl
  | succ n ih =>
    have hlt : n < ws.length := hn
    rw [highWord] at h
    split_ifs at h with hzero
    rw [getD_eq_getElem _ _ hlt] at hzero
    rw [take_succ_eq_append_getElem hlt, wordsNat_append, ih hlt.le h, hzero, wordsNat_cons]
    simp

theorem highWord_eq_some {n i : Nat} (hn : n ≤ ws.length) (h : highWord ws n = some i) :
    i < n ∧ ws.getD i 0 ≠ 0 ∧ wordsNat (ws.take n) = wordsNat (ws.take (i + 1)) := by
  induction n with
  | zero => cases h
  | succ n ih =>
    have hlt : n < ws.length := hn
    rw [highWord] at h
    split_ifs at h with hzero
    · obtain ⟨hi, hne, heq⟩ := ih hlt.le h
      refine ⟨lt_succ_of_lt hi, hne, ?_⟩
      rw [getD_eq_getElem _ _ hlt] at hzero
      rw [take_succ_eq_append_getElem hlt, wordsNat_append, hzero, wordsNat_cons, ← heq]
      simp
    · obtain rfl := Option.some.inj h
      exact ⟨lt_succ_self _, hzero, rfl⟩

theorem wordsNat_take_succ {i : Nat} (h : i < ws.length) :
    wordsNat (ws.take (i + 1)) = wordsNat (ws.take i) + 256 ^ (4 * i) * (ws.getD i 0).toNat := by
  rw [take_succ_eq_append_getElem h, wordsNat_append, wordsNat_cons, wordsNat_nil,
    length_take_of_le h.le, getD_eq_getElem _ _ h, pow_words, Nat.mul_zero, Nat.add_zero]

theorem wordsNat_take_lt {i : Nat} (h : i ≤ ws.length) : wordsNat (ws.take i) < 256 ^ (4 * i) := by
  have hlt := wordsNat_lt (ws.take i)
  rwa [length_take_of_le h, pow_words] at hlt

theorem clearHighBits_none (hne : bi.integerArray ≠ [])
    (h : highWord bi.integerArray bi.arrayLength = none) :
    bi.clearHighBits = { bi with integerLength := 1, arrayLength := 1, signed := 1 } := by
  rw [clearHighBits, if_neg hne, h]

theorem clearHighBits_some (hne : bi.integerArray ≠ []) {i : Nat}
    (h : highWord bi.integerArray bi.arrayLength = some i) :
    bi.clearHighBits =
      { bi with
        integerLength := i * 4 + highByte (bi.integerArray.getD i 0) 4 + 1
        arrayLength := i + 1 } := by
  rw [clearHighBits, if_neg hne, h]

/-- **`BigInteger_ClearHighBits`** makes the length exact. -/
theorem clearHighBits_exact (hmemory : bi.arrayLength ≤ bi.integerArray.length)
    (hpos : 0 < bi.arrayLength) : bi.clearHighBits.Exact bi.magnitude := by
  have hne : bi.integerArray ≠ [] := ne_nil_of_length_pos (hpos.trans_le hmemory)
  cases hhigh : highWord bi.integerArray bi.arrayLength with
  | none =>
    have hzero : bi.magnitude = 0 := highWord_eq_none hmemory hhigh
    have hone : 1 ≤ bi.arrayLength := hpos
    rw [clearHighBits_none hne hhigh, hzero]
    refine ⟨⟨hone.trans hmemory, ?_, (wordsFor_eq 1).symm, Nat.one_pos, Nat.pow_pos (by decide)⟩,
      .inl rfl⟩
    refine wordsNat_eq_zero.mpr fun x hx => ?_
    exact wordsNat_eq_zero.mp hzero x (take_subset_take_left _ hone hx)
  | some i =>
    obtain ⟨hi, hx, heq⟩ := highWord_eq_some hmemory hhigh
    have hlt : i < bi.integerArray.length := hi.trans_le hmemory
    obtain ⟨hlow, hhighB, hbyte⟩ := highByte_spec le_rfl (bi.integerArray.getD i 0).isLt hx
    have hvalue : bi.magnitude =
        wordsNat (bi.integerArray.take i) + 256 ^ (4 * i) * (bi.integerArray.getD i 0).toNat := by
      rw [magnitude, words, heq, wordsNat_take_succ hlt]
    have hrest := wordsNat_take_lt hlt.le
    rw [clearHighBits_some hne hhigh]
    generalize highByte (bi.integerArray.getD i 0) 4 = k at hlow hhighB hbyte ⊢
    have hpow : ∀ j, 256 ^ (i * 4 + j) = 256 ^ (4 * i) * 256 ^ j := fun j => by
      rw [← pow_add, Nat.mul_comm]
    refine ⟨⟨succ_le_of_lt hlt, heq.symm, ?_, succ_pos _, ?_⟩, .inr ?_⟩
    · show i + 1 = wordsFor (i * 4 + k + 1)
      rw [wordsFor_eq]
      omega
    · show _ < 256 ^ (i * 4 + k + 1)
      have hle : 256 ^ (4 * i) * ((bi.integerArray.getD i 0).toNat + 1) ≤
          256 ^ (4 * i) * 256 ^ (k + 1) := Nat.mul_le_mul_left _ hhighB
      rw [Nat.mul_succ] at hle
      rw [Nat.add_assoc, hpow, hvalue]
      omega
    · show 256 ^ (i * 4 + k + 1 - 1) ≤ _
      rw [Nat.add_sub_cancel, hpow, hvalue]
      exact (Nat.mul_le_mul_left _ hlow).trans (Nat.le_add_left _ _)

theorem clearHighBits_signed (hmemory : bi.arrayLength ≤ bi.integerArray.length)
    (hpos : 0 < bi.arrayLength) :
    bi.clearHighBits.signed = if bi.magnitude = 0 then 1 else bi.signed := by
  have hne : bi.integerArray ≠ [] := ne_nil_of_length_pos (hpos.trans_le hmemory)
  cases hhigh : highWord bi.integerArray bi.arrayLength with
  | none =>
    have hzero : bi.magnitude = 0 := highWord_eq_none hmemory hhigh
    rw [clearHighBits_none hne hhigh, if_pos hzero]
  | some i =>
    obtain ⟨hi, hx, heq⟩ := highWord_eq_some hmemory hhigh
    have hlt : i < bi.integerArray.length := hi.trans_le hmemory
    have hvalue : bi.magnitude ≠ 0 := by
      intro hzero
      rw [magnitude, words, heq, wordsNat_take_succ hlt, Nat.add_eq_zero_iff, Nat.mul_eq_zero] at hzero
      rcases hzero.2 with hpow | hword
      · exact absurd hpow (Nat.pow_pos (by decide)).ne'
      · exact hx (BitVec.eq_of_toNat_eq hword)
    rw [clearHighBits_some hne hhigh, if_neg hvalue]

theorem clearHighBits_array (bi : BigInteger) :
    bi.clearHighBits.integerArray = bi.integerArray := by
  unfold clearHighBits
  split
  · rfl
  · split <;> rfl

theorem Exact.normal_clearHighBits (h : bi.clearHighBits.Exact v)
    (hsigned : bi.clearHighBits.signed = if v = 0 then 1 else bi.signed)
    (hpm : bi.signed = 1 ∨ bi.signed = -1) : bi.clearHighBits.Normal := by
  have hv : bi.clearHighBits.magnitude = v := h.magnitude
  refine ⟨hv.symm ▸ h, ?_, fun hzero => ?_⟩
  · rw [hsigned]
    split_ifs
    · exact .inl rfl
    · exact hpm
  · rw [hsigned, if_pos (hv.symm.trans hzero)]

/-- **`BigInteger_ClearHighBits`** normalises, and keeps the value. -/
theorem clearHighBits_normal (hmemory : bi.arrayLength ≤ bi.integerArray.length)
    (hpos : 0 < bi.arrayLength) (hpm : bi.signed = 1 ∨ bi.signed = -1) :
    bi.clearHighBits.Normal ∧ bi.clearHighBits.value = bi.value := by
  have hexact := clearHighBits_exact hmemory hpos
  have hsigned := clearHighBits_signed hmemory hpos
  refine ⟨hexact.normal_clearHighBits hsigned hpm, ?_⟩
  rw [value, value, hexact.magnitude, hsigned]
  split_ifs with hzero
  · rw [hzero, cast_zero, mul_zero, mul_zero]
  · rfl

/-- The operation returns, normalised, an integer. -/
def Returns (operation : Option BigInteger) (x : Int) : Prop :=
  ∃ r, operation = some r ∧ r.value = x ∧ r.Normal

theorem not_returns {operation : Option BigInteger} {r : BigInteger} {x : Int}
    (h : operation = some r) (hne : r.value ≠ x) : ¬Returns operation x := by
  rintro ⟨r', hr', hx, -⟩
  obtain rfl := Option.some.inj (h.symm.trans hr')
  exact hne hx

theorem returns_clearHighBits {operation : Option BigInteger} {r : BigInteger}
    (h : operation = some r.clearHighBits) (hpm : r.signed = 1 ∨ r.signed = -1)
    (hpos : 0 < r.arrayLength) (hmem : r.arrayLength ≤ r.integerArray.length) (x : Int) :
    Returns operation x ↔ r.value = x := by
  obtain ⟨hnormal, hvalue⟩ := clearHighBits_normal hmem hpos hpm
  constructor
  · rintro ⟨r', hr', hx, -⟩
    obtain rfl := Option.some.inj (h.symm.trans hr')
    rwa [← hvalue]
  · intro hx
    exact ⟨_, h, hvalue.trans hx, hnormal⟩

/-! ## Comparing -/

theorem compareWords_eq {us vs : List (BitVec 32)} {n : Nat} (hu : n ≤ us.length)
    (hv : n ≤ vs.length) :
    compareWords us vs n = compare (wordsNat (us.take n)) (wordsNat (vs.take n)) := by
  induction n with
  | zero => rfl
  | succ n ih =>
    have hlow := wordsNat_take_lt (le_of_succ_le hu)
    have hlow' := wordsNat_take_lt (le_of_succ_le hv)
    rw [compareWords, wordsNat_take_succ hu, wordsNat_take_succ hv]
    split_ifs with hgt hlt
    -- the high words decide
    · have hle := Nat.mul_le_mul_left (256 ^ (4 * n)) (BitVec.lt_def.mp hgt)
      rw [Nat.mul_succ] at hle
      exact (Nat.compare_eq_gt.mpr (by omega)).symm
    · have hle := Nat.mul_le_mul_left (256 ^ (4 * n)) (BitVec.lt_def.mp hlt)
      rw [Nat.mul_succ] at hle
      exact (Nat.compare_eq_lt.mpr (by omega)).symm
    · have heq : us.getD n 0 = vs.getD n 0 :=
        BitVec.le_antisymm (BitVec.not_lt.mp hgt) (BitVec.not_lt.mp hlt)
      rw [ih (le_of_succ_le hu) (le_of_succ_le hv), heq]
      rw [compare_eq_ite_lt, compare_eq_ite_lt]
      simp only [Nat.add_lt_add_iff_right]

theorem Exact.lt_of_length_lt {a b : BigInteger} {v u : Nat} (ha : a.Exact v) (hb : b.Exact u)
    (h : a.integerLength < b.integerLength) : v < u := by
  have hpos := ha.length_pos
  have hlow : 256 ^ (b.integerLength - 1) ≤ u := hb.le.resolve_left (by omega)
  exact (ha.lt.trans_le (Nat.pow_le_pow_right (by decide) (by omega))).trans_le hlow

theorem Exact.integerLength_mono {a b : BigInteger} {v u : Nat} (ha : a.Exact v) (hb : b.Exact u)
    (h : v ≤ u) : a.integerLength ≤ b.integerLength := by
  by_contra hlt
  exact absurd (hb.lt_of_length_lt ha (Nat.not_le.mp hlt)) (Nat.not_lt.mpr h)

/-- **`BigInteger_UnsignedCompare`** compares the numbers. -/
theorem unsignedCompare_eq {a b : BigInteger} {v u : Nat} (ha : a.Exact v) (hb : b.Exact u) :
    unsignedCompare a b = compare v u := by
  unfold unsignedCompare
  split_ifs with hgt hlt
  · exact (Nat.compare_eq_gt.mpr (hb.lt_of_length_lt ha hgt)).symm
  · exact (Nat.compare_eq_lt.mpr (ha.lt_of_length_lt hb hlt)).symm
  · have hlen : a.arrayLength = b.arrayLength := by
      rw [ha.arrayLength, hb.arrayLength, le_antisymm (not_lt.mp hgt) (not_lt.mp hlt)]
    rw [compareWords_eq ha.memory (hlen ▸ hb.memory), ← ha.magnitude, ← hb.magnitude, magnitude,
      magnitude, words, words, hlen]

end BigInteger

end RalinkSdk.Crypt
