import RalinkSdk.Crypt.BigIntegerInv

/-!
# The bytes of a big integer

`BigInteger_Bin2BI` and `BigInteger_BI2Bin` convert from and to a text, the high byte first.
`BigInteger_GetByteValue` reads a byte of a word.
-/

namespace RalinkSdk.Crypt

open Lib List Nat

/-! ## Texts -/

/-- The number of a text, the high byte first. -/
def textNat (value : List (BitVec 8)) : Nat := wordsNat value.reverse

/-- The low `k` bytes of a number, the high byte first. -/
def textOf (k n : Nat) : List (BitVec 8) := (toWords 8 k n).reverse

theorem pow_bytes (k : Nat) : 2 ^ (8 * k) = 256 ^ k := by
  rw [pow_mul]
  rfl

theorem textNat_lt (value : List (BitVec 8)) : textNat value < 256 ^ value.length := by
  have hlt := wordsNat_lt value.reverse
  rwa [length_reverse, pow_bytes] at hlt

theorem textNat_append (us vs : List (BitVec 8)) :
    textNat (us ++ vs) = textNat vs + 256 ^ vs.length * textNat us := by
  rw [textNat, reverse_append, wordsNat_append, length_reverse, pow_bytes]
  rfl

@[simp] theorem length_textOf (k n : Nat) : (textOf k n).length = k := by
  rw [textOf, length_reverse, length_toWords]

theorem textNat_textOf (k n : Nat) : textNat (textOf k n) = n % 256 ^ k := by
  rw [textNat, textOf, reverse_reverse, wordsNat_toWords, pow_bytes]

theorem textOf_injective {k m n : Nat} (hm : m < 256 ^ k) (hn : n < 256 ^ k)
    (h : textOf k m = textOf k n) : m = n := by
  have hvalue := congrArg textNat h
  rwa [textNat_textOf, textNat_textOf, mod_eq_of_lt hm, mod_eq_of_lt hn] at hvalue

namespace BigInteger

/-! ## From a text -/

theorem shiftLeft_or_byte (x : BitVec 32) (b : BitVec 8) (hx : x.toNat < 2 ^ 24) :
    (x <<< 8 ||| b.setWidth 32).toNat = x.toNat * 256 + b.toNat := by
  have hb : b.toNat < 2 ^ 8 := b.isLt
  have hshift : x.toNat <<< 8 % 2 ^ 32 = 2 ^ 8 * x.toNat := by
    rw [Nat.shiftLeft_eq, mod_eq_of_lt (by omega), Nat.mul_comm]
  have hbyte : b.toNat % 2 ^ 32 = b.toNat := mod_eq_of_lt (by omega)
  rw [BitVec.toNat_or, BitVec.toNat_shiftLeft, BitVec.toNat_setWidth, hshift, hbyte,
    ← two_pow_add_eq_or_of_lt hb, Nat.mul_comm]

theorem foldl_byte (bs : List (BitVec 8)) (x : BitVec 32) (hx : x.toNat * 256 ^ bs.length < 2 ^ 32)
    (hlen : bs.length ≤ 4) :
    (bs.foldl (fun (number : BitVec 32) b => number <<< 8 ||| b.setWidth 32) x).toNat =
      x.toNat * 256 ^ bs.length + textNat bs := by
  induction bs generalizing x with
  | nil => exact (Nat.mul_one _).symm
  | cons b bs ih =>
    have hpos : 0 < 256 ^ bs.length := Nat.pow_pos (by decide)
    rw [length_cons] at hx hlen
    have hroom : x.toNat < 2 ^ 24 := by
      by_contra hlarge
      have hle : 2 ^ 24 * 256 ≤ x.toNat * 256 ^ (bs.length + 1) :=
        Nat.mul_le_mul (not_lt.mp hlarge) (Nat.le_self_pow (succ_ne_zero _) 256)
      omega
    have hvalue := shiftLeft_or_byte x b hroom
    have hsplit : textNat (b :: bs) = textNat bs + 256 ^ bs.length * b.toNat := by
      rw [← singleton_append, textNat_append]
      rfl
    rw [foldl_cons, ih _ ?_ (by omega), hvalue, hsplit, length_cons, pow_succ]
    · ring
    · rw [hvalue]
      have hb : b.toNat + 1 ≤ 256 := b.isLt
      have hdvd : 256 ^ (bs.length + 1) ∣ 2 ^ 32 := by
        rw [show 2 ^ 32 = 256 ^ 4 from rfl]
        exact Nat.pow_dvd_pow 256 hlen
      obtain ⟨k, hk⟩ := hdvd
      rw [hk, Nat.mul_comm] at hx
      have hlt := Nat.lt_of_mul_lt_mul_left hx
      calc (x.toNat * 256 + b.toNat) * 256 ^ bs.length
          < (x.toNat * 256 + 256) * 256 ^ bs.length := Nat.mul_lt_mul_of_pos_right (by omega) hpos
        _ = 256 ^ (bs.length + 1) * (x.toNat + 1) := by ring
        _ ≤ 256 ^ (bs.length + 1) * k := Nat.mul_le_mul_left _ hlt
        _ = 2 ^ 32 := hk.symm

theorem wordsNat_textWords {n : Nat} {value : List (BitVec 8)} (h : value.length ≤ 4 * n) :
    wordsNat (textWords value n) = textNat value := by
  induction n generalizing value with
  | zero =>
    obtain rfl := length_eq_zero_iff.mp (le_zero.mp h)
    rfl
  | succ n ih =>
    have hlast : (value.drop (value.length - 4)).length ≤ 4 := by
      rw [length_drop]
      omega
    have hrest : (value.take (value.length - 4)).length ≤ 4 * n := by
      rw [length_take]
      omega
    have hword := foldl_byte (value.drop (value.length - 4)) 0
      (by rw [show (0 : BitVec 32).toNat = 0 from rfl, Nat.zero_mul]; decide) hlast
    rw [show (0 : BitVec 32).toNat = 0 from rfl, Nat.zero_mul, Nat.zero_add] at hword
    have hsplit := textNat_append (value.take (value.length - 4)) (value.drop (value.length - 4))
    rw [take_append_drop] at hsplit
    rw [textWords, wordsNat_cons, hword, ih hrest, hsplit]
    congr 1
    rcases Nat.lt_or_ge value.length 4 with hshort | hlong
    · -- nothing is left before the last word
      have hnone : value.take (value.length - 4) = [] := by
        rw [Nat.sub_eq_zero_of_le hshort.le, take_zero]
      rw [hnone]
      exact (Nat.mul_zero _).trans (Nat.mul_zero _).symm
    · have hfour : (value.drop (value.length - 4)).length = 4 := by
        rw [length_drop]
        omega
      rw [hfour]
      rfl

theorem length_textWords (value : List (BitVec 8)) (n : Nat) : (textWords value n).length = n := by
  induction n generalizing value with
  | zero => rfl
  | succ n ih => rw [textWords, length_cons, ih]

section

variable {value : List (BitVec 8)} (hvalue : value ≠ []) (bi : BigInteger)

include hvalue

theorem bin2BI_eq :
    bin2BI value bi = { bi.allocSize value.length with
      integerArray := textWords value (wordsFor value.length) ++
        (bi.allocSize value.length).integerArray.drop (wordsFor value.length) } := by
  have hpos : 0 < value.length := length_pos_iff.mpr hvalue
  simp only [bin2BI, if_neg (allocSize_holds bi hpos).array_ne_nil, allocSize_arrayLength bi hpos]

/-- **`BigInteger_Bin2BI`** -/
theorem bin2BI_holds : (bin2BI value bi).Holds (textNat value) := by
  have hpos : 0 < value.length := length_pos_iff.mpr hvalue
  have halloc := allocSize_holds bi hpos
  have hwords := length_textWords value (wordsFor value.length)
  rw [bin2BI_eq hvalue bi]
  refine ⟨?_, ?_, halloc.arrayLength, halloc.length_pos, ?_⟩
  · simp only [allocSize_arrayLength bi hpos, length_append, hwords]
    exact Nat.le_add_right _ _
  · simp only [magnitude, words, allocSize_arrayLength bi hpos]
    rw [take_left' hwords]
    exact wordsNat_textWords (le_wordsFor _)
  · simp only [allocSize_integerLength bi hpos]
    exact textNat_lt value

theorem bin2BI_integerLength : (bin2BI value bi).integerLength = value.length := by
  rw [bin2BI_eq hvalue bi]
  exact allocSize_integerLength bi (length_pos_iff.mpr hvalue)

theorem bin2BI_length : (bin2BI value bi).integerArray.length =
    max bi.integerArray.length (wordsFor value.length) := by
  have hpos : 0 < value.length := length_pos_iff.mpr hvalue
  rw [bin2BI_eq hvalue bi]
  simp only [length_append, length_textWords, length_drop, allocSize_length bi hpos]
  omega

theorem bin2BI_signed (hsigned : bi.signed = 1) : (bin2BI value bi).signed = 1 := by
  rw [bin2BI_eq hvalue bi]
  simp only [allocSize_signed bi (length_pos_iff.mpr hvalue), hsigned, ite_self]

end

/-! ## Single bytes -/

theorem Holds.word_eq {bi : BigInteger} {n i : Nat} (h : bi.Holds n) (hi : i < bi.arrayLength) :
    (bi.integerArray.getD i 0).toNat = n / 256 ^ (4 * i) % 2 ^ 32 := by
  have hlt : i < bi.integerArray.length := hi.trans_le h.memory
  have hword := (bi.integerArray.getD i 0).isLt
  have hlow := wordsNat_take_lt hlt.le
  have hvalue : n = wordsNat (bi.integerArray.take i) + 256 ^ (4 * i) *
      ((bi.integerArray.getD i 0).toNat + 2 ^ 32 * wordsNat (bi.words.drop (i + 1))) := by
    have hsplit := wordsNat_take_add_drop bi.words (n := i + 1) (by rw [h.length_words]; exact hi)
    have htake : bi.words.take (i + 1) = bi.integerArray.take (i + 1) := by
      rw [words, take_take, min_eq_left hi]
    have hpow : 2 ^ (32 * (i + 1)) = 256 ^ (4 * i) * 2 ^ 32 := by
      rw [pow_words, Nat.mul_succ, pow_add]
      rfl
    rw [htake, wordsNat_take_succ hlt, hpow] at hsplit
    have hmagnitude : wordsNat bi.words = n := h.magnitude
    rw [← hmagnitude, ← hsplit]
    ring
  rw [hvalue, add_mul_div_left _ _ (Nat.pow_pos (by decide)), div_eq_of_lt hlow, Nat.zero_add,
    add_mul_mod_self_left, mod_eq_of_lt hword]

theorem word_byte (n j : Nat) {k : Nat} (hk : k < 4) :
    n / 256 ^ (4 * j) % 2 ^ 32 / 256 ^ k % 256 = n / 256 ^ (4 * j + k) % 256 := by
  rw [pow_add, ← Nat.div_div_eq_div_mul]
  generalize n / 256 ^ (4 * j) = w
  interval_cases k <;> omega

theorem uint32GetByte_sub_one (x : BitVec 32) {k : Nat} (hk : k < 4) :
    (uint32GetByte x (BitVec.ofNat 32 k - 1)).toNat = x.toNat / 256 ^ ((k + 3) % 4) % 256 := by
  rw [← uint32GetByte_toNat x (mod_lt _ (by decide))]
  have hshift : ((BitVec.ofNat 32 k - 1) * 8).toNat % 32 =
      (BitVec.ofNat 32 ((k + 3) % 4) * 8).toNat % 32 := by
    interval_cases k <;> rfl
  rw [uint32GetByte, uint32GetByte, hshift]

/-- The byte below the one with the index, which counts from 1; for the lowest of a word it is the
    highest. -/
def byteBelow (n index : Nat) : Nat := n / 256 ^ (4 * ((index - 1) / 4) + (index + 2) % 4) % 256

/-- **`BigInteger_GetByteValue`** within the length. -/
theorem getByteValue_holds {bi : BigInteger} {n index : Nat} (h : bi.Holds n) (hpos : 0 < index)
    (hle : index ≤ bi.integerLength) : (bi.getByteValue index).toNat = byteBelow n index := by
  have harray := h.arrayLength
  rw [wordsFor_eq] at harray
  have hword : (index - 1) / 4 < bi.arrayLength := by omega
  have hbyte : ((index - 1) % 4 + 3) % 4 = (index + 2) % 4 := by omega
  simp only [getByteValue, byteBelow]
  rw [if_neg (by omega), uint32GetByte_sub_one _ (mod_lt _ (by decide)), h.word_eq hword, hbyte,
    word_byte _ _ (mod_lt _ (by decide))]

/-! ## To a text -/

/-- **`BigInteger_BI2Bin`** gives the bytes of the number, and no more. -/
theorem bi2Bin_exact {bi : BigInteger} {n : Nat} (h : bi.Exact n) {length : Nat}
    (hle : bi.integerLength ≤ length) : bi2Bin bi length = some (textOf bi.integerLength n) := by
  have hexact := clearHighBits_exact h.memory h.arrayLength_pos
  rw [h.magnitude] at hexact
  have hlen : bi.clearHighBits.integerLength = bi.integerLength :=
    le_antisymm (hexact.integerLength_mono h le_rfl) (h.integerLength_mono hexact le_rfl)
  have hnot : ¬(length < bi.integerLength ∨ bi.integerArray = []) := by
    rintro (hlt | hnil)
    · exact absurd hle (not_le.mpr hlt)
    · exact h.array_ne_nil hnil
  rw [bi2Bin, if_neg hnot]
  simp only [hlen, clearHighBits_array]
  rw [textOf, toWords, ← map_reverse]
  congr 1
  apply map_congr_left
  intro k hk
  have hkLen : k < bi.integerLength := mem_range.mp (mem_reverse.mp hk)
  have harray := h.arrayLength
  rw [wordsFor_eq] at harray
  apply BitVec.eq_of_toNat_eq
  rw [uint32GetByte_toNat _ (mod_lt _ (by decide)), h.word_eq (by omega),
    word_byte _ _ (mod_lt _ (by decide)), div_add_mod, BitVec.toNat_ofNat, pow_bytes]

theorem highWord_ne_zero {ws : List (BitVec 32)} {n i : Nat} (h : highWord ws n = some i) :
    ws.getD i 0 ≠ 0 := by
  induction n with
  | zero => cases h
  | succ n ih =>
    rw [highWord] at h
    split_ifs at h with hzero
    · exact ih h
    · obtain rfl := Option.some.inj h
      exact hzero

theorem bi2Bin_head {bi : BigInteger} {length : Nat} {value : List (BitVec 8)}
    (h : bi2Bin bi length = some value) : value.length = 1 ∨ ∃ x xs, value = x :: xs ∧ x ≠ 0 := by
  rw [bi2Bin] at h
  split_ifs at h with hnot
  obtain rfl := Option.some.inj h
  have hne : bi.integerArray ≠ [] := fun hnil => hnot (.inr hnil)
  cases hhigh : highWord bi.integerArray bi.arrayLength with
  | none =>
    left
    rw [clearHighBits_none hne hhigh]
    rfl
  | some i =>
    right
    have hword := highWord_ne_zero hhigh
    obtain ⟨hlow, hlt, hfour⟩ := highByte_spec le_rfl (bi.integerArray.getD i 0).isLt hword
    rw [clearHighBits_some hne hhigh]
    generalize highByte (bi.integerArray.getD i 0) 4 = k at hlow hlt hfour ⊢
    have hdiv : (i * 4 + k) / 4 = i := by omega
    have hmod : (i * 4 + k) % 4 = k := by omega
    simp only [range_succ, reverse_append, reverse_singleton, singleton_append, map_cons]
    refine ⟨_, _, rfl, fun hzero => ?_⟩
    have hbyte := congrArg BitVec.toNat hzero
    rw [hdiv, hmod, uint32GetByte_toNat _ hfour] at hbyte
    have hpos := (Nat.one_le_div_iff (Nat.pow_pos (by decide))).mpr hlow
    have hsmall := Nat.div_lt_of_lt_mul (by rw [← pow_succ]; exact hlt)
    rw [mod_eq_of_lt hsmall] at hbyte
    rw [hbyte] at hpos
    exact absurd hpos (by decide)

end BigInteger

end RalinkSdk.Crypt
