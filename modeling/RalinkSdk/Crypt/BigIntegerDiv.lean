import RalinkSdk.Crypt.BigIntegerBytes
import RalinkSdk.Crypt.BigIntegerSquare
import RalinkSdk.Crypt.ExpMod

/-!
# Division

`BigInteger_Div` looks for each digit of the quotient, a byte, from a guess upwards.  The guess comes
from two bytes of the remainder and one of the divisor.  `BigInteger_GetByteValue` reads the byte
below the one it is asked for, or the highest byte of the word for the lowest, so that the guess is
often too large, or there is none, or the byte of the divisor is 0.
-/

namespace RalinkSdk.Crypt

open Lib List Option Nat
open BitVec (ofNat ofNat_add)

namespace BigInteger

/-! ## Bytes -/

/-- The number of bytes of a number. -/
def byteLength (n : Nat) : Nat := log 256 n + 1

/-- The byte of a number that `BigInteger_GetByteValue` reads for an index. -/
def readByte (n index : Nat) : Nat :=
  if byteLength n < index then 0
  else n / 256 ^ (4 * ((index - 1) / 4) + (index + 2) % 4) % 256

variable {bi : BigInteger}

theorem Exact.integerLength_eq_byteLength {n : Nat} (h : bi.Exact n) :
    bi.integerLength = byteLength n := by
  have hpos := h.length_pos
  have hsucc : bi.integerLength = bi.integerLength - 1 + 1 := by omega
  rw [byteLength]
  rcases h.le with hone | hle
  · have hlt := h.lt
    rw [hone, pow_one] at hlt
    rw [hone, log_of_lt hlt]
  · have hlt := h.lt
    rw [hsucc] at hlt
    rw [hsucc, log_eq_of_pow_le_of_lt_pow hle hlt]

/-- **`BigInteger_GetByteValue`** -/
theorem getByteValue_eq {n index : Nat} (h : bi.Exact n) (hpos : 0 < index) :
    (bi.getByteValue index).toNat = readByte n index := by
  rw [readByte, ← h.integerLength_eq_byteLength]
  by_cases hlarge : bi.integerLength < index
  · rw [if_pos hlarge, getByteValue, if_pos (.inr hlarge)]
    rfl
  · rw [if_neg hlarge]
    exact getByteValue_holds h.toHolds hpos (not_lt.mp hlarge)

/-! ## The multiple of the divisor -/

/-- `pMulBI` without a digit, for place `i`. -/
def cleared (size i : Nat) : BigInteger := ⟨replicate size 0, wordsFor (i + 2), i + 2, 1⟩

/-- `pMulBI` with the digit `k` at place `i`. -/
def placed (size i k : Nat) : BigInteger where
  integerArray :=
    if 0xFF < k ∧ i % 4 = 3 then (replicate size 0).set (i / 4 + 1) 1
    else (replicate size 0).set (i / 4) (ofNat 32 k <<< (8 * (i % 4)))
  arrayLength := wordsFor (i + 2)
  integerLength := i + 2
  signed := 1

theorem wordsNat_set {n j : Nat} (hj : j < n) (x : BitVec 32) :
    wordsNat ((replicate n 0).set j x) = 256 ^ (4 * j) * x.toNat := by
  have hlen : j < (replicate n (0 : BitVec 32)).length := by rwa [length_replicate]
  rw [set_eq_take_append_cons_drop, if_pos hlen, wordsNat_append, take_replicate,
    drop_replicate, wordsNat_replicate, wordsNat_cons, wordsNat_replicate,
    length_replicate, min_eq_left hj.le, pow_words]
  ring

theorem write_eq {j : Nat} (h : j < bi.integerArray.length) (x : BitVec 32) :
    bi.write j x = some { bi with integerArray := bi.integerArray.set j x } := if_pos h

theorem set_replicate_zero (n j : Nat) :
    (replicate n (0 : BitVec 32)).set j 0 = replicate n 0 := by
  apply ext_getElem
  · rw [length_set]
  · intro k _ _
    rw [getElem_set]
    split_ifs <;> simp

section

variable {size i k : Nat} (hsize : wordsFor (i + 2) ≤ size)

include hsize

theorem placed_holds (hk : k ≤ 0x100) : (placed size i k).Holds (k * 256 ^ i) where
  memory := by
    rw [placed]
    split_ifs <;> rwa [length_set, length_replicate]
  magnitude := by
    have hwords := wordsFor_eq (i + 2)
    have hplace : i = 4 * (i / 4) + i % 4 := (div_add_mod i 4).symm
    rw [magnitude, words, placed]
    simp only
    split_ifs with hover
    · -- the digit 0x100 is a 1 in the next word
      have hdigit : k = 256 := by omega
      rw [take_set, take_replicate, min_eq_left hsize, wordsNat_set (by omega), hdigit,
        show (1 : BitVec 32).toNat = 1 from rfl, Nat.mul_one, ← pow_succ']
      congr 1
      omega
    · have hshift : (ofNat 32 k <<< (8 * (i % 4))).toNat = k * 256 ^ (i % 4) := by
        have hlt : i % 4 < 4 := mod_lt _ (by decide)
        rw [BitVec.toNat_shiftLeft, BitVec.toNat_ofNat, Nat.shiftLeft_eq]
        interval_cases hmod : i % 4 <;> omega
      rw [take_set, take_replicate, min_eq_left hsize, wordsNat_set (by omega), hshift]
      conv_rhs => rw [hplace, pow_add]
      ring
  arrayLength := rfl
  length_pos := succ_pos _
  lt := by
    have hpos : 0 < 256 ^ i := Nat.pow_pos (by decide)
    have hpow : 256 ^ (placed size i k).integerLength = 256 ^ i * 65536 := pow_add 256 i 2
    rw [hpow]
    calc k * 256 ^ i ≤ 256 * 256 ^ i := Nat.mul_le_mul_right _ hk
      _ < 256 ^ i * 65536 := by omega

theorem placeDigit_cleared (hk : k ≤ 0x100) :
    placeDigit (cleared size i) (i % 4) (i / 4) k = some (placed size i k) := by
  have hwords := wordsFor_eq (i + 2)
  have hlow : i / 4 < size := by omega
  rw [placeDigit, placed]
  split_ifs with hover
  · have hnext : i / 4 + 1 < size := by omega
    have hdigit : (ofNat 32 k <<< (8 * (i % 4)) : BitVec 32) = 0 := by
      rw [show k = 256 by omega, hover.2]
      rfl
    rw [cleared, write_eq (by rwa [length_replicate])]
    simp only [bind_eq_bind, bind_some]
    rw [write_eq (by rwa [length_set, length_replicate]), hdigit,
      set_comm _ _ (Nat.succ_ne_self _), set_replicate_zero]
  · simp only [bind_eq_bind, bind_some]
    rw [cleared, write_eq (by rwa [length_replicate])]

theorem lowerDigit_placed (hk : k < 0x100) :
    lowerDigit (placed size i (k + 1)) (i % 4) (i / 4) (k + 1) = some (placed size i k) := by
  have hwords := wordsFor_eq (i + 2)
  have hlow : i / 4 < size := by omega
  have hunder : ¬(0xFF < k ∧ i % 4 = 3) := by omega
  rw [lowerDigit, placed, placed, if_neg hunder, Nat.add_sub_cancel]
  by_cases hover : k + 1 = 0x100 ∧ i % 4 = 3
  · have hnext : i / 4 + 1 < size := by omega
    have hover' : 0xFF < k + 1 ∧ i % 4 = 3 := by omega
    rw [if_pos hover, if_pos hover', write_eq (by rwa [length_set, length_replicate])]
    simp only [bind_eq_bind, bind_some]
    rw [set_set, set_replicate_zero, write_eq (by rwa [length_replicate])]
  · have hover' : ¬(0xFF < k + 1 ∧ i % 4 = 3) := by omega
    rw [if_neg hover, if_neg hover']
    simp only [bind_eq_bind, bind_some]
    rw [write_eq (by rwa [length_set, length_replicate]), set_set]

theorem write_placed (hk : k < 0x100) :
    (placed size i k).write (i / 4) 0 = some (cleared size i) := by
  have hwords := wordsFor_eq (i + 2)
  have hlow : i / 4 < size := by omega
  rw [placed, if_neg (by omega), write_eq (by rwa [length_set, length_replicate]),
    set_set, set_replicate_zero, cleared]

end

theorem allocSize_eq_cleared (h : bi.signed = 1) (i : Nat) :
    bi.allocSize (i + 2) = cleared (max bi.integerArray.length (wordsFor (i + 2))) i := by
  have hpos : 0 < i + 2 := succ_pos _
  calc bi.allocSize (i + 2)
      = ⟨(bi.allocSize (i + 2)).integerArray, (bi.allocSize (i + 2)).arrayLength,
          (bi.allocSize (i + 2)).integerLength, (bi.allocSize (i + 2)).signed⟩ := rfl
    _ = cleared (max bi.integerArray.length (wordsFor (i + 2))) i := by
      rw [allocSize_array bi hpos, allocSize_arrayLength bi hpos, allocSize_integerLength bi hpos,
        allocSize_positive h hpos, cleared]

/-! ## Positive operands -/

theorem borrowsKept_of_lt {l s : Nat} (hl : l < 2 ^ 32) (hle : s ≤ l) : BorrowsKept l s := by
  intro i hi
  obtain _ | i := i
  · rw [Nat.mul_zero, pow_zero, mod_one, mod_one] at hi
    exact absurd hi (Nat.lt_irrefl 0)
  · have hpow : l < 2 ^ (32 * (i + 1)) :=
      hl.trans_le (Nat.pow_le_pow_right (by decide) (by omega))
    rw [mod_eq_of_lt hpow, mod_eq_of_lt (hle.trans_lt hpow)] at hi
    exact absurd hi (Nat.not_lt.mpr hle)

section

variable {a b : BigInteger} {v u : Nat} (hsa : a.signed = 1) (hsb : b.signed = 1)
  (target : BigInteger)

include hsa hsb

theorem mul_positive (ha : a.Holds v) (hb : b.Holds u) :
    ∃ r, mul a b target = some r ∧ r.Exact (v * u) ∧ r.signed = 1 := by
  obtain ⟨r, hr, hmag, hpos, hmem⟩ := mul_holds ha hb target
  rw [hsa, hsb] at hr
  have hexact : { r with signed := 1 * 1 }.clearHighBits.Exact r.magnitude :=
    clearHighBits_exact hmem hpos
  have hsigned : { r with signed := 1 * 1 }.clearHighBits.signed = 1 :=
    clearHighBits_positive hmem hpos rfl
  exact ⟨_, hr, hmag ▸ hexact, hsigned⟩

theorem add_exact (ha : a.Holds v) (hb : b.Holds u) :
    ∃ r, add a b target = some r ∧ r.Exact (v + u) ∧ r.signed = 1 := by
  obtain ⟨r, hr, hmag, hsigned, hpos, hmem⟩ := addSame_spec ha hb target
  rw [add_positive ha hb hsa hsb]
  exact ⟨_, hr, hmag ▸ clearHighBits_exact hmem hpos,
    clearHighBits_positive hmem hpos (hsigned.trans hsa)⟩

theorem sub_exact (ha : a.Exact v) (hb : b.Exact u) (hle : u ≤ v) (htarget : target.signed = 1)
    (hkept : BorrowsKept v u) : ∃ r, sub a b target = some r ∧ r.Exact (v - u) ∧ r.signed = 1 := by
  have hna : a.Normal := ⟨ha.magnitude.symm ▸ ha, .inl hsa, fun _ => hsa⟩
  have hnb : b.Normal := ⟨hb.magnitude.symm ▸ hb, .inl hsb, fun _ => hsb⟩
  have hreturns := (sub_returns_iff hna hnb target).mpr (.inr ?_)
  · obtain ⟨r, hr, hvalue, hnormal⟩ := hreturns
    have hdiff : r.value = (v - u : Nat) := by
      rw [hvalue, value, value, hsa, hsb, ha.magnitude, hb.magnitude, cast_sub hle]
      ring
    have hmag := hnormal.magnitude_of_value hdiff
    refine ⟨r, hr, hmag ▸ hnormal.exact, hnormal.signed.resolve_right fun hneg => ?_⟩
    have hzero : r.magnitude = 0 := by
      rw [value, hneg, hmag] at hdiff
      omega
    exact absurd (hneg.symm.trans (hnormal.zero hzero)) (by decide)
  · rw [ha.magnitude, hb.magnitude, hsa]
    split_ifs with heq
    · exact htarget
    · rw [max_eq_left hle, min_eq_right hle]
      exact ⟨fun h => absurd h.1 (by decide), hkept⟩

end

/-! ## A digit -/

/-- The quotient `q` so far, and the remainder `r`. -/
structure Division.At (s : Division) (q r : Nat) : Prop where
  result : s.result.Holds q
  result_signed : s.result.signed = 1
  remainder : s.remainder.Exact r
  remainder_signed : s.remainder.signed = 1
  temp2_signed : s.temp2.signed = 1
  mulBI_signed : s.mulBI.signed = 1

section

variable {second : BigInteger} {b : Nat} (hsecond : second.Exact b) (hsigned : second.signed = 1)
  {size i : Nat} (hsize : wordsFor (i + 2) ≤ size)

include hsecond hsigned hsize

theorem takeMultiple_spec {s : Division} {q r k : Nat} (hs : s.At q r)
    (hplaced : s.mulBI = placed size i k) (hk : k ≤ 0x100) (hle : k * (b * 256 ^ i) ≤ r)
    (hkept : BorrowsKept r (k * (b * 256 ^ i))) :
    ∃ s', takeMultiple second s = some s' ∧ s'.At (q + k * 256 ^ i) (r - k * (b * 256 ^ i)) := by
  have hdigit : s.mulBI.Holds (k * 256 ^ i) := hplaced ▸ placed_holds hsize hk
  obtain ⟨temp, htemp, hproduct, htempSigned⟩ :=
    mul_positive hsigned hs.mulBI_signed s.temp hsecond.toHolds hdigit
  rw [show b * (k * 256 ^ i) = k * (b * 256 ^ i) by ring] at hproduct
  obtain ⟨temp2, htemp2, hdiff, htemp2Signed⟩ := sub_exact hs.remainder_signed htempSigned s.temp2
    hs.remainder hproduct hle hs.temp2_signed hkept
  obtain ⟨remainder, hremainder, hrest, hremainderSigned⟩ := copy_exact hdiff s.remainder
  obtain ⟨sum, hsum, htotal, hsumSigned⟩ :=
    add_exact hs.result_signed hs.mulBI_signed temp2 hs.result hdigit
  obtain ⟨result, hresult, hcopied, hresultSigned⟩ := copy_exact htotal s.result
  refine ⟨{ s with temp, temp2 := sum, remainder, result }, ?_, ?_⟩
  · simp only [takeMultiple, htemp, htemp2, hremainder, hsum, hresult, bind_eq_bind, bind_some]
  · exact ⟨hcopied.toHolds, hresultSigned.trans hsumSigned, hrest,
      hremainderSigned.trans htemp2Signed, hsumSigned, hs.mulBI_signed⟩

theorem multiples_eq {r : Nat} (hr : 0 < r) (hb : 0 < b) (hdigit : r / (b * 256 ^ i) < 0x100)
    {n k : Nat} (hn : k + n = 0x102) (hk : k ≤ r / (b * 256 ^ i) + 1)
    (hone : ¬(r = b * 256 ^ i ∧ k ≤ 1)) {s : Division} (hs : s.remainder.Exact r)
    (hcleared : s.mulBI = cleared size i) :
    ∃ temp, multiples second (i % 4) n (i / 4) s =
      if r < b * 256 ^ i then some { s with mulBI := placed size i 1, temp }
      else takeMultiple second { s with mulBI := placed size i (r / (b * 256 ^ i)), temp } := by
  set m := b * 256 ^ i with hm
  have hmpos : 0 < m := Nat.mul_pos hb (Nat.pow_pos (by decide))
  have hlow : r / m * m ≤ r := div_mul_le_self r m
  have hhigh : r < (r / m + 1) * m := lt_mul_of_div_lt (lt_succ_self _) hmpos
  -- the induction is on the passes that are left
  induction n generalizing k s with
  | zero => omega
  | succ n ih =>
    have hindex : 0x102 - (n + 1) = k := by omega
    have hk256 : k ≤ 0x100 := by omega
    obtain ⟨temp, htemp, hproduct, -⟩ := mul_positive hsigned rfl s.temp hsecond.toHolds
      (placed_holds hsize hk256)
    rw [show b * (k * 256 ^ i) = k * m by rw [hm]; ring] at hproduct
    have hcompare := unsignedCompare_eq hs hproduct
    simp only [multiples, hindex, hcleared, placeDigit_cleared hsize hk256, htemp, hcompare,
      bind_eq_bind, bind_some]
    rcases lt_trichotomy r (k * m) with hlt | heq | hgt
    · -- the digit is one less
      have hnext : k = r / m + 1 := by
        refine le_antisymm hk (succ_le_of_lt ?_)
        exact (Nat.div_lt_iff_lt_mul hmpos).mpr hlt
      refine ⟨temp, ?_⟩
      rw [Nat.compare_eq_lt.mpr hlt, if_pos (by decide)]
      by_cases hsmall : k ≤ 1
      · have hzero : r / m = 0 := le_zero.mp (le_of_succ_le_succ (hnext.symm.trans_le hsmall))
        have hunder : r < m := (div_eq_zero_iff_lt hmpos).mp hzero
        rw [if_pos hsmall, if_pos hunder, hnext, hzero]
      · have hover : ¬r < m := fun h => hsmall (by rw [hnext, div_eq_of_lt h])
        rw [if_neg hsmall, if_neg (by decide), if_neg hover, hnext,
          lowerDigit_placed hsize hdigit]
        rfl
    · -- the digit is exact
      have hexact : r / m = k := by rw [heq, Nat.mul_div_cancel _ hmpos]
      have hover : ¬r < m := by
        rw [← div_eq_zero_iff_lt hmpos, hexact]
        rintro rfl
        omega
      have hlarge : ¬k ≤ 1 := by
        intro hle
        refine hone ⟨?_, hle⟩
        obtain rfl : k = 1 := by
          rcases le_one_iff_eq_zero_or_eq_one.mp hle with rfl | h
          · omega
          · exact h
        rw [heq, Nat.one_mul]
      refine ⟨temp, ?_⟩
      rw [Nat.compare_eq_eq.mpr heq, if_pos (by decide), if_neg hlarge, if_pos rfl, if_neg hover,
        hexact]
    · -- the search goes on
      have hle : k ≤ r / m := (Nat.le_div_iff_mul_le hmpos).mpr hgt.le
      have hone' : ¬(r = m ∧ k + 1 ≤ 1) := fun h => hone ⟨h.1, by omega⟩
      rw [Nat.compare_eq_gt.mpr hgt, if_neg (by decide), if_neg (by omega),
        write_placed hsize (by omega)]
      simp only [bind_some]
      obtain ⟨temp', htemp'⟩ := ih (k := k + 1) (s := { s with mulBI := cleared size i, temp })
        (by omega) hs rfl (succ_le_succ hle) hone'
      exact ⟨temp', htemp'⟩

theorem multiples_spec {q r : Nat} (hr : 0 < r) (hb : 0 < b)
    (hdigit : r / (b * 256 ^ i) < 0x100) {k : Nat} (hk : k ≤ 0x100)
    (hguess : k ≤ r / (b * 256 ^ i) + 1) (hone : ¬(r = b * 256 ^ i ∧ k ≤ 1))
    (hkept : BorrowsKept r (r / (b * 256 ^ i) * (b * 256 ^ i))) {s : Division} (hs : s.At q r)
    (hcleared : s.mulBI = cleared size i) :
    ∃ s', multiples second (i % 4) (0x102 - k) (i / 4) s = some s' ∧
      s'.At (q + r / (b * 256 ^ i) * 256 ^ i) (r % (b * 256 ^ i)) := by
  obtain ⟨temp, htemp⟩ := multiples_eq hsecond hsigned hsize hr hb hdigit (n := 0x102 - k)
    (by omega) hguess hone hs.remainder hcleared
  rw [htemp]
  by_cases hunder : r < b * 256 ^ i
  · rw [if_pos hunder, div_eq_of_lt hunder, mod_eq_of_lt hunder, Nat.zero_mul, Nat.add_zero]
    exact ⟨_, rfl, hs.result, hs.result_signed, hs.remainder, hs.remainder_signed, hs.temp2_signed,
      rfl⟩
  · rw [if_neg hunder]
    obtain ⟨s', hs', hat⟩ := takeMultiple_spec hsecond hsigned hsize (q := q)
      (s := { s with mulBI := placed size i (r / (b * 256 ^ i)), temp })
      ⟨hs.result, hs.result_signed, hs.remainder, hs.remainder_signed, hs.temp2_signed, rfl⟩ rfl
      hdigit.le (div_mul_le_self _ _) hkept
    refine ⟨s', hs', ?_⟩
    rwa [Nat.mul_comm (r / (b * 256 ^ i)) (b * 256 ^ i), ← mod_eq_sub_mul_div] at hat

end

/-! ## The digits -/

/-- What `BigInteger_Div` takes for the high bytes of the remainder at place `i`. -/
def mulStart (b r i : Nat) : Nat :=
  readByte r (byteLength b + i + 1) * 256 + readByte r (byteLength b + i)

def secondHighByte (b : Nat) : Nat := readByte b (byteLength b)

/-- The digit of the quotient at place `i` is not below the guess by more than 1, and the multiple of
    the divisor is subtracted without losing a borrow; or it is 0 and there is no guess. -/
def DigitFound (a b i : Nat) : Prop :=
  let r := a % (b * 256 ^ (i + 1))
  b ≤ r →
    if mulStart b r i < secondHighByte b then r < b * 256 ^ i
    else
      min (mulStart b r i / secondHighByte b) 0x100 ≤ r / (b * 256 ^ i) + 1 ∧
      ¬(r = b * 256 ^ i ∧ mulStart b r i / secondHighByte b ≤ 1) ∧
      BorrowsKept r (r / (b * 256 ^ i) * (b * 256 ^ i))

theorem mod_place (a b i : Nat) : a % (b * 256 ^ (i + 1)) % (b * 256 ^ i) = a % (b * 256 ^ i) := by
  rw [pow_succ, ← Nat.mul_assoc, mod_mul_right_mod]

theorem digit_lt {a b i : Nat} (hb : 0 < b) : a % (b * 256 ^ (i + 1)) / (b * 256 ^ i) < 0x100 := by
  refine Nat.div_lt_of_lt_mul ?_
  rw [Nat.mul_assoc, ← pow_succ]
  exact mod_lt _ (Nat.mul_pos hb (Nat.pow_pos (by decide)))

theorem Exact.pow_le {n : Nat} (h : bi.Exact n) (hn : 0 < n) :
    256 ^ (bi.integerLength - 1) ≤ n := by
  rcases h.le with hone | hle
  · rwa [hone]
  · exact hle

theorem Exact.lt_place {first second : BigInteger} {a b : Nat} (hfirst : first.Exact a)
    (hsecond : second.Exact b) (hb : 0 < b) :
    a < b * 256 ^ (first.integerLength - second.integerLength + 1) := by
  have hpos := hsecond.length_pos
  calc a < 256 ^ first.integerLength := hfirst.lt
    _ ≤ 256 ^ (second.integerLength - 1 + (first.integerLength - second.integerLength + 1)) :=
      Nat.pow_le_pow_right (by decide) (by omega)
    _ = 256 ^ (second.integerLength - 1) *
        256 ^ (first.integerLength - second.integerLength + 1) := pow_add _ _ _
    _ ≤ b * 256 ^ (first.integerLength - second.integerLength + 1) :=
      Nat.mul_le_mul_right _ (hsecond.pow_le hb)

theorem Exact.lt_of_not_close {remainder second : BigInteger} {r b i : Nat}
    (hr : remainder.Exact r) (hsecond : second.Exact b) (hb : 0 < b) (hlt : r < b * 256 ^ (i + 1))
    (h : ¬(ofNat 32 (second.integerLength + (i + 1)) -
      ofNat 32 remainder.integerLength).toNat ≤ 1) : r < b * 256 ^ i := by
  have hpos := hsecond.length_pos
  have hbound : remainder.integerLength ≤ second.integerLength + (i + 1) := by
    refine hr.integerLength_le (by omega) (hlt.trans ?_)
    rw [pow_add 256 second.integerLength]
    exact Nat.mul_lt_mul_of_pos_right hsecond.lt (Nat.pow_pos (by decide))
  have hfar : remainder.integerLength ≤ second.integerLength - 1 + i := by
    by_contra hnear
    refine h ?_
    obtain heq | heq : remainder.integerLength = second.integerLength + (i + 1) ∨
        remainder.integerLength + 1 = second.integerLength + (i + 1) := by omega
    · rw [heq, BitVec.sub_self]
      decide
    · rw [← heq, ofNat_add, BitVec.add_comm, BitVec.add_sub_cancel]
      decide
  calc r < 256 ^ remainder.integerLength := hr.lt
    _ ≤ 256 ^ (second.integerLength - 1 + i) := Nat.pow_le_pow_right (by decide) hfar
    _ = 256 ^ (second.integerLength - 1) * 256 ^ i := pow_add _ _ _
    _ ≤ b * 256 ^ i := Nat.mul_le_mul_right _ (hsecond.pow_le hb)

section

variable {first second : BigInteger} {a b : Nat} (hfirst : first.Exact a) (hsecond : second.Exact b)
  (hsigned : second.signed = 1) (hle : b ≤ a) (hb : 0 < b) (hhigh : secondHighByte b ≠ 0)

include hfirst hsecond hsigned hle hb hhigh

theorem divLoop_step {i : Nat} (hfound : DigitFound a b i) {s : Division} {q : Nat}
    (hs : s.At q (a % (b * 256 ^ (i + 1)))) (hbr : b ≤ a % (b * 256 ^ (i + 1)))
    (hsum : q * b + a % (b * 256 ^ (i + 1)) = a) :
    ∃ s' q', divLoop first second (first.integerLength - second.integerLength + 1)
        (second.getByteValue second.integerLength) (i + 2) s =
      divLoop first second (first.integerLength - second.integerLength + 1)
        (second.getByteValue second.integerLength) (i + 1) s' ∧
      s'.At q' (a % (b * 256 ^ i)) ∧ q' * b + a % (b * 256 ^ i) = a := by
  have hbytesA := hfirst.integerLength_eq_byteLength
  have hbytesB := hsecond.integerLength_eq_byteLength
  have hlast := mod_place a b i
  have hdigit := digit_lt (a := a) (i := i) hb
  have hlt := mod_lt a (Nat.mul_pos hb (Nat.pow_pos (n := i + 1) (succ_pos 255 : 0 < 256)))
  rw [DigitFound] at hfound
  generalize a % (b * 256 ^ (i + 1)) = r at hs hbr hsum hlast hdigit hlt hfound
  rw [← hlast]
  have hcompare := unsignedCompare_eq hs.remainder hsecond
  have hover : compare r b ≠ .lt := fun h => Nat.not_lt.mpr hbr (Nat.compare_eq_lt.mp h)
  have hsecondByte : (second.getByteValue second.integerLength).toNat = secondHighByte b := by
    rw [getByteValue_eq hsecond hsecond.length_pos, hbytesB, secondHighByte]
  have hposition : first.integerLength + (i + 1) - (first.integerLength - second.integerLength + 1) =
      byteLength b + i := by
    have hlengths := hsecond.integerLength_mono hfirst hle
    omega
  have hbytes : (s.remainder.getByteValue (byteLength b + i + 1)).toNat * 256 +
      (s.remainder.getByteValue (byteLength b + i)).toNat = mulStart b r i := by
    have hpos := hsecond.length_pos
    rw [getByteValue_eq hs.remainder (succ_pos _), getByteValue_eq hs.remainder (by omega),
      mulStart]
  have hshift : (if (i + 1) % 4 = 0 then 4 else (i + 1) % 4) - 1 = i % 4 := by
    split_ifs <;> omega
  -- a digit 0 leaves the remainder as it is
  have hnone : r < b * 256 ^ i → r % (b * 256 ^ i) = r := mod_eq_of_lt
  rw [divLoop, hcompare, if_neg hover]
  by_cases hclose : (ofNat 32 (second.integerLength + (i + 1)) -
      ofNat 32 s.remainder.integerLength).toNat ≤ 1
  · have hfound' := hfound hbr
    simp only [if_pos hclose, allocSize_eq_cleared hs.mulBI_signed i, hposition, hbytes, hshift,
      hsecondByte, Nat.add_sub_cancel]
    split_ifs at hfound' with hstart
    · refine ⟨{ s with mulBI := cleared _ i }, q, if_pos hstart, ?_, ?_⟩
      · rw [hnone hfound']
        exact ⟨hs.result, hs.result_signed, hs.remainder, hs.remainder_signed, hs.temp2_signed, rfl⟩
      · rw [hnone hfound', hsum]
    · obtain ⟨hguess, hone, hkept⟩ := hfound'
      have hone' : ¬(r = b * 256 ^ i ∧ min (mulStart b r i / secondHighByte b) 0x100 ≤ 1) :=
        fun h => hone ⟨h.1, by omega⟩
      obtain ⟨s', hs', hat⟩ := multiples_spec hsecond hsigned (le_max_right _ _) (hb.trans_le hbr) hb
        hdigit (min_le_right _ _) hguess hone' hkept
        (s := { s with mulBI := cleared (max s.mulBI.integerArray.length (wordsFor (i + 2))) i })
        ⟨hs.result, hs.result_signed, hs.remainder, hs.remainder_signed, hs.temp2_signed, rfl⟩ rfl
      have hbyte : second.getByteValue second.integerLength ≠ 0 := by
        intro hzero
        rw [hzero] at hsecondByte
        exact hhigh hsecondByte.symm
      refine ⟨s', _, ?_, hat, ?_⟩
      · rw [if_neg hstart, if_neg hbyte, hs']
        rfl
      · have hsplit := div_add_mod r (b * 256 ^ i)
        calc (q + r / (b * 256 ^ i) * 256 ^ i) * b + r % (b * 256 ^ i)
            = q * b + (b * 256 ^ i * (r / (b * 256 ^ i)) + r % (b * 256 ^ i)) := by ring
          _ = a := by rw [hsplit, hsum]
  · -- the remainder is too short
    have hunder : r < b * 256 ^ i := hs.remainder.lt_of_not_close hsecond hb hlt hclose
    refine ⟨s, q, if_neg hclose, ?_, ?_⟩
    · rwa [hnone hunder]
    · rw [hnone hunder, hsum]

omit hfirst hsigned hle hhigh in
theorem divLoop_stop {computeSize i : Nat} {secondHighByte : BitVec 8} {s : Division} {q : Nat}
    (hs : s.At q (a % (b * 256 ^ i))) (hsum : q * b + a % (b * 256 ^ i) = a)
    (hless : a % (b * 256 ^ i) < b) :
    ∃ s', divLoop first second computeSize secondHighByte (i + 1) s = some s' ∧
      s'.At (a / b) (a % b) := by
  have hcompare := unsignedCompare_eq hs.remainder hsecond
  have hrest : a % (b * 256 ^ i) = a % b := by
    rw [← mod_mul_right_mod a b (256 ^ i), mod_eq_of_lt hless]
  have hquotient : a / b = q := by
    rw [← hsum, Nat.add_comm, add_mul_div_right _ _ hb, div_eq_of_lt hless, Nat.zero_add]
  refine ⟨s, ?_, ?_⟩
  · rw [divLoop, hcompare, Nat.compare_eq_lt.mpr hless, if_pos rfl]
  · rwa [hquotient, ← hrest]

/-- **The loop of `BigInteger_Div`** from index `i` on. -/
theorem divLoop_spec {i : Nat} (hi : i ≤ byteLength a - byteLength b + 1)
    (hfound : ∀ j < byteLength a - byteLength b + 1, DigitFound a b j) {s : Division} {q : Nat}
    (hs : s.At q (a % (b * 256 ^ i))) (hsum : q * b + a % (b * 256 ^ i) = a) :
    ∃ s', divLoop first second (first.integerLength - second.integerLength + 1)
        (second.getByteValue second.integerLength) (i + 1) s = some s' ∧
      s'.At (a / b) (a % b) := by
  induction i generalizing s q with
  | zero =>
    refine divLoop_stop hsecond hb hs hsum ?_
    rw [pow_zero, Nat.mul_one]
    exact mod_lt a hb
  | succ i ih =>
    by_cases hless : a % (b * 256 ^ (i + 1)) < b
    · exact divLoop_stop hsecond hb hs hsum hless
    · obtain ⟨s', q', hstep, hs', hsum'⟩ := divLoop_step hfirst hsecond hsigned hle hb hhigh
        (hfound i hi) hs (Nat.not_lt.mp hless) hsum
      rw [hstep]
      exact ih (le_of_succ_le hi) hs' hsum'

end

/-! ## The operation -/

/-- The digits of the quotient are found, or there are none to find. -/
def DigitsFound (a b : Nat) : Prop :=
  b = 1 ∨ a ≤ b ∨ secondHighByte b ≠ 0 ∧ ∀ i < byteLength a - byteLength b + 1, DigitFound a b i

/-- The operation returns, normalised, a quotient and a remainder. -/
def ReturnsDivision (operation : Option (BigInteger × BigInteger)) (a b : Int) : Prop :=
  ∃ q r, operation = some (q, r) ∧ q.Normal ∧ r.Normal ∧ a = q.value * b + r.value ∧
    0 ≤ r.value ∧ r.value < b

theorem Normal.positive_of_nonneg (h : bi.Normal) (hvalue : 0 ≤ bi.value) : bi.signed = 1 := by
  refine h.signed.resolve_right fun hneg => ?_
  rw [value, hneg] at hvalue
  have hzero : bi.magnitude = 0 := by omega
  exact absurd (hneg.symm.trans (h.zero hzero)) (by decide)

theorem Exact.isByte_one_iff {n : Nat} (h : bi.Exact n) : bi.isByte 1 ↔ n = 1 := by
  rw [h.toHolds.isByte_iff]
  refine and_iff_right_of_imp fun hone => ?_
  have hlt : n < 256 ^ 1 := hone.trans_lt (by decide)
  have hle := h.integerLength_le Nat.one_pos hlt
  have hpos := h.length_pos
  omega

/-- **`BigInteger_Bin2BI`** of a byte. -/
theorem bin2BI_byte (x : BitVec 8) (bi : BigInteger) : (bin2BI [x] bi).Holds x.toNat :=
  bin2BI_holds (cons_ne_nil x []) bi

theorem Holds.normal_positive {n : Nat} (h : bi.Holds n) :
    { bi with signed := 1 }.clearHighBits.Normal ∧
      value { bi with signed := 1 }.clearHighBits = n := by
  have hnormal : { bi with signed := 1 }.clearHighBits.Normal ∧
      value { bi with signed := 1 }.clearHighBits = value { bi with signed := 1 } :=
    clearHighBits_normal h.memory h.arrayLength_pos (.inl rfl)
  refine ⟨hnormal.1, hnormal.2.trans ?_⟩
  rw [value, one_mul]
  exact congrArg _ h.magnitude

theorem returnsDivision_clearHighBits {result remainder : BigInteger} {a b : Nat} (hb : 0 < b)
    (hresult : result.Holds (a / b)) (hremainder : remainder.Holds (a % b)) :
    ReturnsDivision (some ({ result with signed := 1 }.clearHighBits,
      { remainder with signed := 1 }.clearHighBits)) a b := by
  obtain ⟨hnormalQ, hquotient⟩ := hresult.normal_positive
  obtain ⟨hnormalR, hrest⟩ := hremainder.normal_positive
  refine ⟨_, _, rfl, hnormalQ, hnormalR, ?_, ?_, ?_⟩
  · rw [hquotient, hrest, ← cast_mul, ← cast_add, div_add_mod']
  · rw [hrest]
    exact Int.natCast_nonneg _
  · rw [hrest]
    exact Int.ofNat_lt.mpr (mod_lt _ hb)

section

variable {first second : BigInteger} (hfirst : first.Normal) (hsecond : second.Normal)
  (hnonneg : 0 ≤ first.value) (hpositive : 0 < second.value) (result remainder : BigInteger)

omit hfirst hnonneg in
include hsecond hpositive in
theorem magnitude_pos : 0 < second.magnitude := by
  have hsigned := hsecond.positive_of_nonneg hpositive.le
  rw [value, hsigned, one_mul] at hpositive
  exact Int.natCast_pos.mp hpositive

include hfirst hsecond hpositive

theorem div_operands : ¬(first.integerArray = [] ∨ second.integerArray = [] ∨ second.isByte 0) := by
  have hb := magnitude_pos hsecond hpositive
  rintro (h | h | h)
  · exact hfirst.exact.array_ne_nil h
  · exact hsecond.exact.array_ne_nil h
  · exact hb.ne' ((hsecond.exact.isByte_iff 0).mp h).2

include hnonneg

theorem div_eq_divLoop (hone : second.magnitude ≠ 1) (hlt : second.magnitude < first.magnitude)
    (hresult : result.signed = 1) :
    ∃ s : Division, s.At 0 first.magnitude ∧
      div first second result remainder =
        (divLoop first second (first.integerLength - second.integerLength + 1)
          (second.getByteValue second.integerLength)
          (first.integerLength - second.integerLength + 1 + 1) s).map fun s =>
            ({ s.result with signed := 1 }.clearHighBits,
              { s.remainder with signed := 1 }.clearHighBits) := by
  have hsa := hfirst.positive_of_nonneg hnonneg
  have hsb := hsecond.positive_of_nonneg hpositive.le
  have hcompare := unsignedCompare_eq hfirst.exact hsecond.exact
  have hpos : 0 < first.integerLength - second.integerLength + 1 := succ_pos _
  have hroom : 0 < 2 * first.integerLength := Nat.mul_pos (by decide) hfirst.exact.length_pos
  obtain ⟨copied, hcopy, hexact, hcopiedSigned⟩ :=
    copy_exact hfirst.exact (remainder.allocSize second.integerLength)
  refine ⟨⟨result.allocSize (first.integerLength - second.integerLength + 1), copied,
    init.allocSize (2 * first.integerLength), init.allocSize (2 * first.integerLength),
    init.allocSize (2 * first.integerLength)⟩, ?_, ?_⟩
  · exact ⟨allocSize_holds _ hpos, allocSize_positive hresult hpos, hexact,
      hcopiedSigned.trans hsa, allocSize_positive rfl hroom, allocSize_positive rfl hroom⟩
  · have hbyte : ¬second.isByte 1 := hsecond.exact.isByte_one_iff.not.mpr hone
    rw [div, if_neg (div_operands hfirst hsecond hpositive), if_neg hbyte, hcompare,
      Nat.compare_eq_gt.mpr hlt, hsa, hsb]
    simp only [hcopy, bind_eq_bind, bind_some, one_mul]
    generalize divLoop _ _ _ _ _ _ = looped
    cases looped with
    | none => rfl
    | some s => rfl

theorem div_returns (hresult : result.signed = 1)
    (hfound : DigitsFound first.magnitude second.magnitude) :
    ReturnsDivision (div first second result remainder) first.value second.value := by
  have hsa := hfirst.positive_of_nonneg hnonneg
  have hsb := hsecond.positive_of_nonneg hpositive.le
  have hb := magnitude_pos hsecond hpositive
  have hcompare := unsignedCompare_eq hfirst.exact hsecond.exact
  have hoperands := div_operands hfirst hsecond hpositive
  have hdone : ∀ {q r : BigInteger}, q.Holds (first.magnitude / second.magnitude) →
      r.Holds (first.magnitude % second.magnitude) →
      ReturnsDivision (some ({ q with signed := 1 }.clearHighBits,
        { r with signed := 1 }.clearHighBits)) first.value second.value := by
    intro q r hq hr
    have h := returnsDivision_clearHighBits hb hq hr
    rwa [value, value, hsa, hsb, one_mul, one_mul]
  by_cases hone : second.magnitude = 1
  · -- the quotient is the first operand
    obtain ⟨q, hq, hexact, -⟩ := copy_exact hfirst.exact result
    rw [div, if_neg hoperands, if_pos (hsecond.exact.isByte_one_iff.mpr hone), hq, hsa, hsb]
    refine hdone (q := q) (r := bin2BI [0] remainder) ?_ ?_
    · rw [hone, Nat.div_one]
      exact hexact.toHolds
    · rw [hone, mod_one]
      exact bin2BI_byte 0 remainder
  have hbyte : ¬second.isByte 1 := hsecond.exact.isByte_one_iff.not.mpr hone
  rcases lt_trichotomy first.magnitude second.magnitude with hlt | heq | hgt
  · obtain ⟨r, hr, hexact, -⟩ := copy_exact hfirst.exact remainder
    rw [div, if_neg hoperands, if_neg hbyte, hcompare, Nat.compare_eq_lt.mpr hlt, hr, hsa, hsb]
    refine hdone (q := bin2BI [0] result) (r := r) ?_ ?_
    · rw [div_eq_of_lt hlt]
      exact bin2BI_byte 0 result
    · rw [mod_eq_of_lt hlt]
      exact hexact.toHolds
  · rw [div, if_neg hoperands, if_neg hbyte, hcompare, Nat.compare_eq_eq.mpr heq, hsa, hsb]
    refine hdone (q := bin2BI [1] result) (r := bin2BI [0] remainder) ?_ ?_
    · rw [heq, Nat.div_self hb]
      exact bin2BI_byte 1 result
    · rw [heq, mod_self]
      exact bin2BI_byte 0 remainder
  · obtain ⟨hhigh, hdigits⟩ := (hfound.resolve_left hone).resolve_left (Nat.not_le.mpr hgt)
    obtain ⟨s, hs, hdiv⟩ :=
      div_eq_divLoop hfirst hsecond hnonneg hpositive result remainder hone hgt hresult
    have hlengthA := hfirst.exact.integerLength_eq_byteLength
    have hlengthB := hsecond.exact.integerLength_eq_byteLength
    -- at the first place the remainder is all of the first operand
    have hfits := hfirst.exact.lt_place hsecond.exact hb
    have hmod := mod_eq_of_lt hfits
    rw [hlengthA, hlengthB] at hmod
    obtain ⟨s', hs', hat⟩ := divLoop_spec hfirst.exact hsecond.exact hsb hgt.le hb hhigh le_rfl
      hdigits (hmod.symm ▸ hs) (by rw [hmod, Nat.zero_mul, Nat.zero_add])
    rw [← hlengthA, ← hlengthB] at hs'
    rw [hdiv, hs']
    exact hdone hat.result hat.remainder.toHolds

theorem div_eq_none (hone : second.magnitude ≠ 1) (hlt : second.magnitude < first.magnitude)
    (hresult : result.signed = 1) (hzero : secondHighByte second.magnitude = 0) :
    div first second result remainder = none := by
  obtain ⟨s, hs, hdiv⟩ :=
    div_eq_divLoop hfirst hsecond hnonneg hpositive result remainder hone hlt hresult
  have hcompare := unsignedCompare_eq hs.remainder hsecond.exact
  have hbyte : second.getByteValue second.integerLength = 0 := by
    apply BitVec.eq_of_toNat_eq
    rw [getByteValue_eq hsecond.exact hsecond.exact.length_pos,
      hsecond.exact.integerLength_eq_byteLength]
    exact hzero
  have hlengths : s.remainder.integerLength + 1 =
      second.integerLength + (first.integerLength - second.integerLength + 1) := by
    have hremainder := hs.remainder.integerLength_eq_byteLength
    have hlength := hfirst.exact.integerLength_eq_byteLength
    have hle := hsecond.exact.integerLength_mono hfirst.exact hlt.le
    omega
  have hclose : (ofNat 32 (second.integerLength +
      (first.integerLength - second.integerLength + 1)) -
        ofNat 32 s.remainder.integerLength).toNat ≤ 1 := by
    rw [← hlengths, ofNat_add, BitVec.add_comm, BitVec.add_sub_cancel]
    decide
  rw [hdiv, divLoop, hcompare, Nat.compare_eq_gt.mpr hlt, if_neg (by decide), if_pos hclose, hbyte]
  rfl

/-- **Division**: it is right if the digits of the quotient are found, and it divides by 0 where the
    byte that is read for the high byte of the divisor is 0. -/
theorem div_of_digitsFound (hresult : result.signed = 1) :
    (DigitsFound first.magnitude second.magnitude →
      ReturnsDivision (div first second result remainder) first.value second.value) ∧
    (second.magnitude ≠ 1 → second.magnitude < first.magnitude →
      secondHighByte second.magnitude = 0 → div first second result remainder = none) :=
  ⟨div_returns hfirst hsecond hnonneg hpositive result remainder hresult, fun hone hlt hzero =>
    div_eq_none hfirst hsecond hnonneg hpositive result remainder hone hlt hresult hzero⟩

end

/-- 775 by 258. -/
theorem div_of_digitsFound_775 :
    ReturnsDivision (div ⟨[775], 1, 2, 1⟩ ⟨[258], 1, 2, 1⟩ init init) 775 258 := by
  have hfirst : Normal ⟨[775], 1, 2, 1⟩ :=
    ⟨⟨⟨le_rfl, rfl, rfl, by decide, by decide⟩, .inr (by decide)⟩, .inl rfl, fun _ => rfl⟩
  have hsecond : Normal ⟨[258], 1, 2, 1⟩ :=
    ⟨⟨⟨le_rfl, rfl, rfl, by decide, by decide⟩, .inr (by decide)⟩, .inl rfl, fun _ => rfl⟩
  refine (div_of_digitsFound hfirst hsecond (by decide) (by decide) init init rfl).1 ?_
  have hlengthA : byteLength 775 = 2 := by
    rw [byteLength, Nat.log_eq_of_pow_le_of_lt_pow (m := 1) (by decide) (by decide)]
  have hlengthB : byteLength 258 = 2 := by
    rw [byteLength, Nat.log_eq_of_pow_le_of_lt_pow (m := 1) (by decide) (by decide)]
  have hbyte : secondHighByte 258 = 2 := by
    rw [secondHighByte, readByte, hlengthB]
    rfl
  show DigitsFound 775 258
  refine .inr (.inr ⟨by rw [hbyte]; decide, fun i hi => ?_⟩)
  obtain rfl : i = 0 := by
    rw [hlengthA, hlengthB] at hi
    omega
  have hstart : mulStart 258 775 0 = 7 := by
    rw [mulStart, readByte, readByte, hlengthA, hlengthB]
    rfl
  intro _
  show if mulStart 258 775 0 < secondHighByte 258 then _ else _
  rw [hstart, hbyte, if_neg (by decide)]
  exact ⟨by decide, by decide, borrowsKept_of_lt (by decide) (by decide)⟩

/-- 3 by 2: the byte read for the high byte of 2 is 0. -/
theorem div_by_high_byte_zero : Normal ⟨[3], 1, 1, 1⟩ ∧ Normal ⟨[2], 1, 1, 1⟩ ∧
      div ⟨[3], 1, 1, 1⟩ ⟨[2], 1, 1, 1⟩ init init = none ∧
      ¬ReturnsDivision (div ⟨[3], 1, 1, 1⟩ ⟨[2], 1, 1, 1⟩ init init) 3 2 := by
  have hnone : div ⟨[3], 1, 1, 1⟩ ⟨[2], 1, 1, 1⟩ init init = none := by decide
  refine ⟨⟨⟨⟨le_rfl, rfl, rfl, by decide, by decide⟩, .inl rfl⟩, .inl rfl, fun _ => rfl⟩,
    ⟨⟨⟨le_rfl, rfl, rfl, by decide, by decide⟩, .inl rfl⟩, .inl rfl, fun _ => rfl⟩, hnone, ?_⟩
  rintro ⟨q, r, h, -⟩
  cases hnone.symm.trans h

end BigInteger

end RalinkSdk.Crypt
