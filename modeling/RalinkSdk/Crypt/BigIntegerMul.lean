import RalinkSdk.Crypt.BigIntegerInv

/-!
# Products

`BigInteger_Mul`: every row of products fits the array that is sized in bytes, as the sum so far and
the row together are at most the product.
-/

namespace RalinkSdk.Crypt

open Lib List Option Nat

namespace BigInteger

/-! ## The carry -/

/-- **`while (Carry != 0)`** adds the carry, and stops inside memory that has room for the sum. -/
theorem carryOn_spec {rs : List (BitVec 32)} {carry : Nat} (hcarry : carry < 2 ^ 32)
    (hfits : wordsNat rs + carry < 2 ^ (32 * rs.length)) :
    ∃ out, carryOn rs carry = some out ∧ out.length = rs.length ∧
      wordsNat out = wordsNat rs + carry := by
  induction rs generalizing carry with
  | nil =>
    obtain rfl : carry = 0 := by simpa using hfits
    exact ⟨[], by rw [carryOn], rfl, rfl⟩
  | cons r rs ih =>
    obtain _ | carry := carry
    · exact ⟨r :: rs, by rw [carryOn], rfl, rfl⟩
    have hr := r.isLt
    have hpow : 2 ^ (32 * (r :: rs).length) = 2 ^ 32 * 2 ^ (32 * rs.length) := by
      rw [length_cons, Nat.mul_succ, Nat.pow_add, Nat.mul_comm]
    rw [wordsNat_cons, hpow] at hfits
    -- the sum fits 64 bits, and what goes on is less than a word again
    have hsum : (r.toNat + (carry + 1)) % 2 ^ 64 = r.toNat + (carry + 1) :=
      mod_eq_of_lt (by omega)
    have hsplit := div_add_mod (r.toNat + (carry + 1)) (2 ^ 32)
    have hcarry' : (r.toNat + (carry + 1)) / 2 ^ 32 < 2 ^ 32 := by omega
    obtain ⟨out, hrun, hlen, hout⟩ := ih hcarry' (by omega)
    refine ⟨BitVec.ofNat 32 (r.toNat + (carry + 1)) :: out, ?_, ?_, ?_⟩
    · rw [carryOn]
      simp only [hsum, hrun, map_some]
    · rw [length_cons, length_cons, hlen]
    · rw [wordsNat_cons, wordsNat_cons, hout, BitVec.toNat_ofNat]
      omega

theorem carryOn_drop {rs : List (BitVec 32)} {n carry : Nat} (hcarry : carry < 2 ^ 32)
    (hfits : wordsNat (rs.drop n) + carry < 2 ^ (32 * (rs.length - n))) :
    ∃ out, carryOn (rs.drop n) carry = some out ∧ out.length = rs.length - n ∧
      wordsNat out = wordsNat (rs.drop n) + carry := by
  rw [← length_drop] at hfits ⊢
  exact carryOn_spec hcarry hfits

theorem carryOn_append (tail : List (BitVec 32)) {rs out : List (BitVec 32)} {carry : Nat}
    (h : carryOn rs carry = some out) : carryOn (rs ++ tail) carry = some (out ++ tail) := by
  induction rs generalizing carry out with
  | nil =>
    obtain _ | carry := carry
    · rw [carryOn, some.injEq] at h
      rw [carryOn, h]
    · rw [carryOn] at h
      cases h
  | cons r rs ih =>
    obtain _ | carry := carry
    · rw [carryOn, some.injEq] at h
      rw [carryOn, h]
    · rw [carryOn] at h
      obtain ⟨rest, hrest, rfl⟩ := map_eq_some_iff.mp h
      rw [cons_append, carryOn, ih hrest]
      rfl

/-! ## The rows -/

theorem word_mul_le (x : BitVec 32) {a : Nat} (ha : a < 2 ^ 32) :
    x.toNat * a ≤ (2 ^ 32 - 1) * (2 ^ 32 - 1) :=
  Nat.mul_le_mul (le_sub_one_of_lt x.isLt) (le_sub_one_of_lt ha)

theorem mulStep_exact {a : Nat} (ha : a < 2 ^ 32) :
    StepExact (mulStep a) (fun x => x.toNat * a) (2 ^ 32) fun _ => True := by
  intro x r c hc _
  have hproduct := word_mul_le x ha
  have hr := r.isLt
  simp only [mulStep]
  generalize x.toNat * a = product at hproduct ⊢
  have hsecond : product % 2 ^ 64 = product := mod_eq_of_lt (by omega)
  have hsum : (r.toNat + product + c) % 2 ^ 64 = r.toNat + product + c :=
    mod_eq_of_lt (by omega)
  simp only [hsecond, hsum, BitVec.toNat_ofNat]
  omega

theorem mulRow_spec {a : BitVec 32} {second memory : List (BitVec 32)}
    (hlen : second.length ≤ memory.length)
    (hfits : wordsNat memory + a.toNat * wordsNat second < 2 ^ (32 * memory.length)) :
    ∃ out, out.length = memory.length ∧
      wordsNat out = wordsNat memory + a.toNat * wordsNat second ∧
      ∀ tail, mulRow second a (memory ++ tail) = some (out ++ tail) := by
  by_cases hzero : a = 0
  · refine ⟨memory, rfl, ?_, fun tail => if_pos hzero⟩
    rw [hzero]
    exact (Nat.add_eq_left.mpr (Nat.zero_mul _)).symm
  · obtain ⟨out, hrun, houtLen, hout⟩ := chain_product (mulStep_exact a.isLt)
      (fun c hc hlt => carryOn_drop hc hlt) hlen (by decide) (fun _ _ => trivial) hfits
    refine ⟨out, houtLen, hout, fun tail => ?_⟩
    rw [mulRow, if_neg hzero]
    exact chain_behind (fun rs c out h => carryOn_append tail h) hrun

/-- **The rows** add the product to the number in memory.  They stay inside memory that has room
    for the sum. -/
theorem mulLoop_spec {first second memory : List (BitVec 32)} (hsecond : second ≠ [])
    (hlen : first.length + second.length ≤ memory.length + 1)
    (hfits : wordsNat memory + wordsNat first * wordsNat second < 2 ^ (32 * memory.length)) :
    ∃ out, out.length = memory.length ∧
      wordsNat out = wordsNat memory + wordsNat first * wordsNat second ∧
      ∀ tail, mulLoop second first (memory ++ tail) = some (out ++ tail) := by
  induction first generalizing memory with
  | nil => exact ⟨memory, rfl, by rw [wordsNat_nil, Nat.zero_mul, Nat.add_zero], fun _ => rfl⟩
  | cons a first ih =>
    have hpos := length_pos_iff.mpr hsecond
    rw [length_cons] at hlen
    rw [wordsNat_cons, Nat.add_mul, Nat.mul_assoc, ← Nat.add_assoc] at hfits ⊢
    -- the row of the word `a`, then the other words one place higher
    have hrowFits : wordsNat memory + a.toNat * wordsNat second < 2 ^ (32 * memory.length) := by omega
    obtain ⟨row, hrowLen, hrowValue, hrow⟩ := mulRow_spec (by omega) hrowFits
    obtain ⟨r, rs, rfl⟩ := exists_cons_of_length_pos (show 0 < row.length by omega)
    rw [← hrowValue, wordsNat_cons, Nat.add_assoc, ← Nat.mul_add] at hfits ⊢
    have hpow : 2 ^ (32 * memory.length) = 2 ^ 32 * 2 ^ (32 * rs.length) := by
      rw [← hrowLen, length_cons, Nat.mul_succ, Nat.pow_add, Nat.mul_comm]
    rw [hpow] at hfits
    rw [length_cons] at hrowLen
    have hrestFits : wordsNat rs + wordsNat first * wordsNat second < 2 ^ (32 * rs.length) :=
      Nat.lt_of_mul_lt_mul_left ((Nat.le_add_left _ _).trans_lt hfits)
    obtain ⟨out, houtLen, hout, hrest⟩ := ih (by omega) hrestFits
    refine ⟨r :: out, ?_, ?_, fun tail => ?_⟩
    · rw [length_cons, houtLen, hrowLen]
    · rw [wordsNat_cons, hout]
    · rw [mulLoop, hrow]
      simp only [cons_append, drop_succ_cons, drop_zero, hrest,
        bind_eq_bind, bind_some, take_succ_cons, take_zero]
      rfl

/-! ## The operation -/

section

variable {a b : BigInteger} {v u : Nat} (ha : a.Holds v) (hb : b.Holds u)

include ha hb

/-- **The array** that is allocated for the two lengths in bytes holds all that the rows write. -/
theorem mulLoop_words :
    ∃ out, out.length = wordsFor (a.integerLength + b.integerLength) ∧ wordsNat out = v * u ∧
      ∀ tail, mulLoop b.words a.words
        (replicate (wordsFor (a.integerLength + b.integerLength)) 0 ++ tail) =
          some (out ++ tail) := by
  have hsecond : b.words ≠ [] :=
    ne_nil_of_length_pos (hb.arrayLength_pos.trans_eq hb.length_words.symm)
  have hva : wordsNat a.words = v := ha.magnitude
  have hub : wordsNat b.words = u := hb.magnitude
  have hlen : a.words.length + b.words.length ≤
      (replicate (wordsFor (a.integerLength + b.integerLength)) (0 : BitVec 32)).length + 1 := by
    rw [ha.length_words, hb.length_words, ha.arrayLength, hb.arrayLength, length_replicate,
      wordsFor_eq, wordsFor_eq, wordsFor_eq]
    omega
  have hproduct : v * u < 2 ^ (32 * wordsFor (a.integerLength + b.integerLength)) := by
    rw [pow_words]
    calc v * u < 256 ^ a.integerLength * 256 ^ b.integerLength := Nat.mul_lt_mul'' ha.lt hb.lt
      _ = 256 ^ (a.integerLength + b.integerLength) := (pow_add ..).symm
      _ ≤ _ := Nat.pow_le_pow_right (by decide) (le_wordsFor _)
  obtain ⟨out, houtLen, hout, hrun⟩ := mulLoop_spec hsecond hlen
    (by rwa [wordsNat_replicate, Nat.zero_add, hva, hub, length_replicate])
  rw [length_replicate] at houtLen
  rw [wordsNat_replicate, Nat.zero_add, hva, hub] at hout
  exact ⟨out, houtLen, hout, hrun⟩

theorem mul_holds (result : BigInteger) :
    ∃ r : BigInteger,
      mul a b result = some { r with signed := a.signed * b.signed }.clearHighBits ∧
        r.magnitude = v * u ∧ 0 < r.arrayLength ∧ r.arrayLength ≤ r.integerArray.length := by
  have hnil : ¬(a.integerArray = [] ∨ b.integerArray = []) := by
    rintro (h | h)
    · exact ha.array_ne_nil h
    · exact hb.array_ne_nil h
  rw [mul, if_neg hnil]
  by_cases hzero : a.isByte 0 ∨ b.isByte 0
  · have hholds := allocSize_holds result Nat.one_pos
    refine ⟨result.allocSize 1, ?_, ?_, hholds.arrayLength_pos, hholds.memory⟩
    · rw [if_pos hzero]
      rfl
    · rw [hholds.magnitude]
      rcases hzero with h | h
      · rw [((ha.isByte_iff 0).mp h).2]
        exact (Nat.zero_mul u).symm
      · rw [((hb.isByte_iff 0).mp h).2]
        exact (Nat.mul_zero v).symm
  rw [if_neg hzero]
  by_cases hfirst : a.isByte 1
  · obtain ⟨r, hr, hholds, -, -⟩ := copy_holds hb result
    refine ⟨r, ?_, ?_, hholds.arrayLength_pos, hholds.memory⟩
    · rw [if_pos hfirst, hr]
      rfl
    · rw [hholds.magnitude, ((ha.isByte_iff 1).mp hfirst).2]
      exact (Nat.one_mul u).symm
  rw [if_neg hfirst]
  by_cases hsecond : b.isByte 1
  · obtain ⟨r, hr, hholds, -, -⟩ := copy_holds ha result
    refine ⟨r, ?_, ?_, hholds.arrayLength_pos, hholds.memory⟩
    · rw [if_pos hsecond, hr]
      rfl
    · rw [hholds.magnitude, ((hb.isByte_iff 1).mp hsecond).2]
      exact (Nat.mul_one v).symm
  rw [if_neg hsecond]
  have hpos : 0 < a.integerLength + b.integerLength := Nat.add_pos_left ha.length_pos _
  obtain ⟨out, houtLen, hout, hrun⟩ := mulLoop_words ha hb
  set n := wordsFor (a.integerLength + b.integerLength) with hn
  have hrow := hrun (replicate (max result.integerArray.length n - n) 0)
  rw [replicate_append_replicate, Nat.add_sub_cancel' (le_max_right _ _)] at hrow
  have halloc : (result.allocSize (a.integerLength + b.integerLength)).arrayLength = n :=
    allocSize_arrayLength _ hpos
  refine ⟨{ result.allocSize (a.integerLength + b.integerLength) with
    integerArray := out ++ replicate (max result.integerArray.length n - n) 0 }, ?_, ?_, ?_, ?_⟩
  · simp only [allocSize_array _ hpos, ← hn, hrow]
    rfl
  · rw [magnitude, words]
    simp only [halloc, ← houtLen, take_left]
    exact hout
  · simp only [halloc]
    exact wordsFor_pos hpos
  · simp only [halloc, length_append, houtLen]
    exact Nat.le_add_right _ _

end

/-- **`BigInteger_Mul`** returns the product of integers whose lengths bound them, normalised, and
    the rows stay inside the words that are allocated for the sum of the lengths: they run on just
    these words, and leave alone what lies behind. -/
theorem mul_returns {a b : BigInteger} (ha : a.Bounded) (hb : b.Bounded) (result : BigInteger) :
    Returns (mul a b result) (a.value * b.value) ∧
      ∃ out, mulLoop b.words a.words
          (List.replicate (wordsFor (a.integerLength + b.integerLength)) 0) = some out ∧
        ∀ tail, mulLoop b.words a.words
          (List.replicate (wordsFor (a.integerLength + b.integerLength)) 0 ++ tail) =
            some (out ++ tail) := by
  constructor
  · obtain ⟨r, hr, hmag, hpos, hmem⟩ := mul_holds ha.holds hb.holds result
    have hsigned : a.signed * b.signed = 1 ∨ a.signed * b.signed = -1 := by
      rcases ha.signed with h | h <;> rcases hb.signed with h' | h' <;> rw [h, h'] <;> decide
    refine (returns_clearHighBits hr hsigned hpos hmem _).mpr ?_
    show a.signed * b.signed * (r.magnitude : Int) = _
    rw [hmag, value, value, Nat.cast_mul]
    ring
  · obtain ⟨out, -, -, hrun⟩ := mulLoop_words ha.holds hb.holds
    refine ⟨out, ?_, hrun⟩
    have hnone := hrun []
    rwa [List.append_nil, List.append_nil] at hnone

/-- 3 in four bytes with zeros before it, and -5. -/
theorem mul_returns_padded : Returns (mul ⟨[3], 1, 4, 1⟩ ⟨[5], 1, 1, -1⟩ init) (-15) :=
  (mul_returns ⟨⟨le_rfl, rfl, rfl, by decide, by decide⟩, .inl rfl⟩
    ⟨⟨le_rfl, rfl, rfl, by decide, by decide⟩, .inr rfl⟩ init).1

end BigInteger

end RalinkSdk.Crypt
