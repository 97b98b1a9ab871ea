import RalinkSdk.Lib.Montgomery
import RalinkSdk.Crypt.BigIntegerSquare
import RalinkSdk.Crypt.ExpMod

/-!
# The Montgomery reduction

`BigInteger_Montgomery_Reduction` for the prime of WPS.  Its loops are Montgomery's reduction in any
memory that has room for them; the memory is allocated for the length of the number, and a short
number in a new object gets too little.  The subtraction at the end is that of `BigInteger_Sub`.
-/

namespace RalinkSdk.Crypt

open Lib List Option Nat

namespace BigInteger

/-! ## The loops -/

theorem length_carryOn {rs out : List (BitVec 32)} {carry : Nat} (h : carryOn rs carry = some out) :
    out.length = rs.length := by
  induction rs generalizing carry out with
  | nil =>
    obtain _ | carry := carry
    · rw [carryOn, some.injEq] at h
      rw [h]
    · cases h
  | cons r rs ih =>
    obtain _ | carry := carry
    · rw [carryOn, some.injEq] at h
      rw [h]
    · rw [carryOn] at h
      obtain ⟨rest, hrest, rfl⟩ := map_eq_some_iff.mp h
      rw [length_cons, length_cons, ih hrest]

theorem length_reductionLoop {p memory out : List (BitVec 32)} {n : Nat}
    (h : reductionLoop p n memory = some out) : out.length = memory.length := by
  induction n generalizing memory out with
  | zero =>
    rw [reductionLoop, some.injEq] at h
    rw [h]
  | succ n ih =>
    obtain _ | ⟨r, memory⟩ := memory
    · cases h
    rw [reductionLoop] at h
    obtain ⟨row, hrow, h⟩ := bind_eq_some_iff.mp h
    obtain ⟨rest, hrest, h⟩ := bind_eq_some_iff.mp h
    obtain rfl := some.inj h
    have hrowLen : row.length = (r :: memory).length :=
      length_chain (fun _ _ _ hfinish => length_carryOn hfinish) hrow
    rw [length_append, ih hrest, length_take, length_drop, hrowLen, length_cons]
    omega

theorem reductionRow_spec {p memory : List (BitVec 32)} {r : BitVec 32}
    (hp : wordsNat p % 2 ^ 32 = 2 ^ 32 - 1) (hlen : p.length ≤ (r :: memory).length)
    (hfits : wordsNat (r :: memory) + r.toNat * wordsNat p < 2 ^ (32 * (r :: memory).length)) :
    ∃ rest, chain (rowStep r.toNat) carryOn p (r :: memory) 0 = some (0 :: rest) ∧
      rest.length = memory.length ∧
      wordsNat rest * 2 ^ 32 = wordsNat (r :: memory) + r.toNat * wordsNat p := by
  obtain ⟨out, hrun, houtLen, hout⟩ := chain_product (rowStep_exact r.isLt)
    (fun c hc hlt => carryOn_drop hc hlt) hlen (by decide) (fun _ _ => trivial) hfits
  obtain ⟨x, rest, rfl⟩ := exists_cons_of_length_pos
    (show 0 < out.length by rw [houtLen]; exact succ_pos _)
  -- the low word is what the number leaves modulo the base
  have hx : x = 0 := by
    have hmod : wordsNat (r :: memory) % 2 ^ 32 = r.toNat := by
      rw [wordsNat_cons, add_mul_mod_self_left, mod_eq_of_lt r.isLt]
    have hdvd := dvd_add_mod_mul (by decide) hp (wordsNat (r :: memory))
    rw [hmod, ← hout, wordsNat_cons, ← Nat.dvd_add_iff_left (Nat.dvd_mul_right _ _)] at hdvd
    exact BitVec.eq_of_toNat_eq (eq_zero_of_dvd_of_lt hdvd x.isLt)
  rw [hx, wordsNat_cons] at hout
  refine ⟨rest, hx ▸ hrun, succ.inj houtLen, ?_⟩
  rw [← hout, Nat.mul_comm]
  exact (Nat.zero_add _).symm

/-- **The first loop** is Montgomery's reduction in any memory that has room for it. -/
theorem reductionLoop_spec {p memory : List (BitVec 32)} {n R : Nat} (hR : R = 2 ^ (32 * n))
    (hp : wordsNat p % 2 ^ 32 = 2 ^ 32 - 1) (hlen : n + p.length ≤ memory.length + 1)
    (hroom : wordsNat memory + R * wordsNat p < 2 ^ (32 * memory.length) + wordsNat p) :
    ∃ out, reductionLoop p n memory = some out ∧ out.length = memory.length ∧
      Reduces (wordsNat p) R (wordsNat memory) (wordsNat (out.drop n)) := by
  subst hR
  induction n generalizing memory with
  | zero => exact ⟨memory, rfl, rfl, Reduces.refl _ _⟩
  | succ n ih =>
    have hpLen : 0 < p.length := by
      refine length_pos_iff.mpr fun hnil => ?_
      rw [hnil] at hp
      cases hp
    obtain _ | ⟨r, memory⟩ := memory
    · rw [length_nil] at hlen
      omega
    have hr := r.isLt
    have hpow : 2 ^ (32 * (n + 1)) = 2 ^ 32 * 2 ^ (32 * n) := by
      rw [Nat.mul_succ, Nat.pow_add, Nat.mul_comm]
    have hmemory : 2 ^ (32 * (r :: memory).length) = 2 ^ 32 * 2 ^ (32 * memory.length) := by
      rw [length_cons, Nat.mul_succ, Nat.pow_add, Nat.mul_comm]
    -- the row takes less than all the multiples that are still to come
    have hrow : (r.toNat + 1) * wordsNat p ≤ 2 ^ 32 * wordsNat p := Nat.mul_le_mul_right _ hr
    have hrest : wordsNat p ≤ 2 ^ (32 * n) * wordsNat p :=
      Nat.le_mul_of_pos_left _ (Nat.two_pow_pos _)
    rw [Nat.succ_mul] at hrow
    rw [hpow, Nat.mul_assoc, hmemory] at hroom
    have hfits : wordsNat (r :: memory) + r.toNat * wordsNat p < 2 ^ (32 * (r :: memory).length) := by
      rw [hmemory]
      omega
    obtain ⟨rest, hrun, hrestLen, hvalue⟩ := reductionRow_spec hp (by omega) hfits
    have hlen' : n + p.length ≤ rest.length + 1 := by
      rw [length_cons] at hlen
      omega
    have hroom' : wordsNat rest + 2 ^ (32 * n) * wordsNat p <
        2 ^ (32 * rest.length) + wordsNat p := by
      rw [hrestLen]
      omega
    obtain ⟨out, hloop, houtLen, hreduces⟩ := ih hlen' hroom'
    refine ⟨0 :: out, ?_, ?_, ?_⟩
    · rw [reductionLoop, hrun]
      simp only [bind_eq_bind, bind_some, drop_succ_cons, drop_zero, hloop]
      rfl
    · rw [length_cons, length_cons, houtLen, hrestLen]
    · rw [drop_succ_cons, hpow]
      exact hreduces.digit hr hvalue

/-! ## The prime -/

@[irreducible] def wpsPrime : Nat := wpsDhPValue.foldl (fun n b => n * 256 + b.toNat) 0

/-- The power of 2 by which `BigInteger_Montgomery_Reduction` divides for `Bits_Of_R` of 1537. -/
@[irreducible] def wpsR : Nat := 2 ^ (32 * 48)

theorem wpsPrime_spec :
    (256 ^ 191 ≤ wpsPrime ∧ wpsPrime < 256 ^ 192 ∧ wpsPrime % 2 ^ 32 = 2 ^ 32 - 1) ∧
      wpsR = 2 ^ (32 * 48) ∧ Nat.Coprime wpsPrime wpsR ∧
      2 * (wpsPrime * wpsR) ≤ 2 ^ (32 * 97) ∧ 2 * wpsPrime < 2 ^ (32 * 49) := by
  decide +kernel

theorem wpsPrime_bounds : 256 ^ 191 ≤ wpsPrime ∧ wpsPrime < 256 ^ 192 :=
  ⟨wpsPrime_spec.1.1, wpsPrime_spec.1.2.1⟩

theorem wpsPrime_mod : wpsPrime % 2 ^ 32 = 2 ^ 32 - 1 := wpsPrime_spec.1.2.2

theorem wpsR_eq : wpsR = 2 ^ (32 * 48) := wpsPrime_spec.2.1

theorem wpsPrime_coprime : Nat.Coprime wpsPrime wpsR := wpsPrime_spec.2.2.1

theorem wpsPrime_mul_le {n : Nat} (h : 97 ≤ n) : 2 * (wpsPrime * wpsR) ≤ 2 ^ (32 * n) := by
  refine le_trans wpsPrime_spec.2.2.2.1 ?_
  exact Nat.pow_le_pow_right Nat.two_pos (Nat.mul_le_mul_left 32 h)

theorem two_mul_wpsPrime_lt : 2 * wpsPrime < 2 ^ (32 * 49) := wpsPrime_spec.2.2.2.2

theorem Exact.integerLength_eq {bi : BigInteger} {v n : Nat} (h : bi.Exact v)
    (hlow : 256 ^ n ≤ v) (hhigh : v < 256 ^ (n + 1)) : bi.integerLength = n + 1 := by
  have hle := h.integerLength_le (succ_pos n) hhigh
  have hlt := (Nat.pow_lt_pow_iff_right (by decide : 1 < 256)).mp (hlow.trans_lt h.lt)
  omega

/-! ## The operation -/

section

variable {a p : BigInteger} {v : Nat} (ha : a.Holds v) (hp : p.Exact wpsPrime) (result : BigInteger)

include hp

theorem wpsPrime_words :
    p.integerLength = 192 ∧ p.words.length = 48 ∧ wordsNat p.words = wpsPrime := by
  have hlen := hp.integerLength_eq wpsPrime_bounds.1 wpsPrime_bounds.2
  refine ⟨hlen, ?_, hp.magnitude⟩
  rw [hp.length_words, hp.arrayLength, hlen]
  rfl

include ha

theorem reduction_copy :
    ∃ k, copy a (result.allocSize (a.integerLength + p.integerLength + 20)) = some
        { integerArray := a.words ++ replicate k 0
          arrayLength := a.arrayLength
          integerLength := a.integerLength
          signed := a.signed } ∧
      (a.words ++ replicate k (0 : BitVec 32)).length =
        max result.integerArray.length (wordsFor (a.integerLength + 212)) := by
  obtain ⟨hlen, -, -⟩ := wpsPrime_words hp
  refine ⟨_, copy_eq ha _, ?_⟩
  have hle : a.arrayLength ≤ wordsFor (a.integerLength + 212) := by
    rw [ha.arrayLength, wordsFor_eq, wordsFor_eq]
    omega
  have hpos : 0 < a.integerLength + 212 := succ_pos _
  have hsum : a.integerLength + 192 + 20 = a.integerLength + 212 := rfl
  rw [length_append, length_replicate, ha.length_words, hlen, hsum, allocSize_length _ hpos]
  omega

theorem montgomeryLoops_eq_none
    (hroom : max result.integerArray.length (wordsFor (a.integerLength + 212)) < 97) :
    montgomeryLoops a p result 1537 = none := by
  obtain ⟨k, hcopy, hlen⟩ := reduction_copy ha hp result
  rw [montgomeryLoops, hcopy]
  cases hloop : reductionLoop p.words (1537 / 32) (a.words ++ replicate k 0) with
  | none => simp only [bind_eq_bind, bind_some, hloop, bind_none]
  | some array =>
    have harray : array.length < 2 * (1537 / 32) + 1 := by
      rw [length_reductionLoop hloop, hlen]
      exact hroom
    simp only [bind_eq_bind, bind_some, hloop, if_pos harray, bind_none]

/-- **The loops** leave the number that Montgomery's reduction leaves. -/
theorem montgomeryLoops_spec (hv : v < wpsPrime * wpsR)
    (hroom : 97 ≤ max result.integerArray.length (wordsFor (a.integerLength + 212))) :
    ∃ r : BigInteger, montgomeryLoops a p result 1537 = some r.clearHighBits ∧
      Reduces wpsPrime wpsR v r.magnitude ∧ r.signed = a.signed ∧
      0 < r.arrayLength ∧ r.arrayLength ≤ r.integerArray.length := by
  obtain ⟨k, hcopy, hlen⟩ := reduction_copy ha hp result
  obtain ⟨-, hwords, hprime⟩ := wpsPrime_words hp
  set memory := a.words ++ replicate k (0 : BitVec 32) with hmemoryEq
  have hmemory : wordsNat memory = v := by
    rw [hmemoryEq, wordsNat_append, wordsNat_replicate, Nat.mul_zero, Nat.add_zero]
    exact ha.magnitude
  have hlong : 97 ≤ memory.length := hlen ▸ hroom
  have hbound : wordsNat memory + wpsR * wordsNat p.words <
      2 ^ (32 * memory.length) + wordsNat p.words := by
    rw [hmemory, hprime, Nat.mul_comm wpsR]
    refine Nat.lt_add_right _ ?_
    calc v + wpsPrime * wpsR < wpsPrime * wpsR + wpsPrime * wpsR := Nat.add_lt_add_right hv _
      _ = 2 * (wpsPrime * wpsR) := (Nat.two_mul _).symm
      _ ≤ 2 ^ (32 * memory.length) := wpsPrime_mul_le hlong
  obtain ⟨array, hloop, harrayLen, hreduces⟩ := reductionLoop_spec wpsR_eq
    (hprime.symm ▸ wpsPrime_mod) (by omega) hbound
  have harray : 97 ≤ array.length := harrayLen.symm ▸ hlong
  rw [hprime, hmemory] at hreduces
  -- what is left fits in 49 words
  have hleft : wordsNat (array.drop 48) < 2 ^ (32 * 49) :=
    (hreduces.lt_two_mul hv).trans two_mul_wpsPrime_lt
  have hhigh : 49 ≤ (array.drop 48).length := by
    rw [length_drop]
    omega
  set shifted := (array.drop 48).take 49 ++ array.drop 49 with hshifted
  have hshiftedLen : 49 ≤ shifted.length := by
    rw [hshifted, length_append, length_take_of_le hhigh]
    exact Nat.le_add_right _ _
  have hall : wordsNat (shifted.take 49) = wordsNat (array.drop 48) := by
    rw [hshifted, take_append_of_le_length (by rw [length_take_of_le hhigh]),
      take_take, min_self, wordsNat_take_eq hhigh hleft]
  set arrayLength := if shifted.getD 48 0 ≠ 0 then 49 else 48 with harrayLength
  have hinside : arrayLength ≤ shifted.length ∧ 0 < arrayLength := by
    rw [harrayLength]
    split_ifs <;> omega
  have hmagnitude : wordsNat (shifted.take arrayLength) = wordsNat (array.drop 48) := by
    rw [harrayLength]
    split_ifs with hword
    · exact hall
    · rw [← hall, wordsNat_take_succ hshiftedLen, not_not.mp hword]
      rfl
  refine ⟨⟨shifted, arrayLength, arrayLength * 4, a.signed⟩, ?_, ?_, rfl, hinside.2, hinside.1⟩
  · rw [montgomeryLoops, hcopy]
    simp only [bind_eq_bind, bind_some, show 1537 / 32 = 48 from rfl, hloop,
      if_neg (Nat.not_lt.mpr harray)]
    rfl
  · rw [magnitude, words, hmagnitude]
    exact hreduces

end

theorem returns_positive {x : BigInteger} {w : Nat} (hx : x.Exact w) (hsigned : x.signed = 1)
    (c : Nat) : Returns (some x) c ↔ w = c := by
  have hvalue : x.value = w := by
    rw [value, hsigned, hx.magnitude, one_mul]
  constructor
  · rintro ⟨y, hy, hc, -⟩
    obtain rfl := some.inj hy
    exact cast_injective (R := Int) (hvalue.symm.trans hc)
  · rintro rfl
    exact ⟨x, rfl, hvalue, hx.magnitude.symm ▸ hx, .inl hsigned, fun _ => hsigned⟩

theorem copy_clearHighBits_returns {u : BigInteger} {w : Nat} (hu : u.Holds w)
    (hsigned : w ≠ 0 → u.signed = 1) (target : BigInteger) (c : Nat) :
    ∃ x, copy u target = some x ∧ (Returns (some x.clearHighBits) c ↔ w = c) := by
  obtain ⟨x, hx, hholds, -, hsign⟩ := copy_holds hu target
  have hexact := clearHighBits_exact hholds.memory hholds.arrayLength_pos
  have hpositive := clearHighBits_signed hholds.memory hholds.arrayLength_pos
  rw [hholds.magnitude] at hexact hpositive
  refine ⟨x, hx, returns_positive hexact ?_ c⟩
  rw [hpositive, hsign]
  split_ifs with hzero
  · rfl
  · exact hsigned hzero

theorem sub_copy_returns {r p : BigInteger} {w c : Nat} (hr : r.Exact (w + c)) (hp : p.Exact w)
    (hrs : r.signed = 1) (hps : p.signed = 1) (u target : BigInteger) :
    ∃ d x, sub r p u = some d ∧ copy d target = some x ∧
      (Returns (some x.clearHighBits) c ↔ BorrowsKept (w + c) w) := by
  have hcmp := unsignedCompare_eq hr hp
  have hnil : ¬(r.integerArray = [] ∨ p.integerArray = []) := by
    rintro (h | h)
    · exact hr.array_ne_nil h
    · exact hp.array_ne_nil h
  rw [sub, if_neg hnil, hcmp, hrs, hps]
  obtain rfl | hpos := Nat.eq_zero_or_pos c
  · -- equal numbers: no borrow comes into any word
    rw [if_pos ⟨Nat.compare_eq_eq.mpr rfl, by decide⟩]
    have hzero := allocSize_one_exact u
    obtain ⟨x, hx, hiff⟩ := copy_clearHighBits_returns hzero.toHolds (fun h => absurd rfl h) target 0
    refine ⟨_, x, rfl, hx, hiff.trans (iff_of_true rfl fun i hi => ?_)⟩
    rw [Nat.add_zero] at hi
    exact absurd hi (lt_irrefl _)
  · have hne : w + c ≠ w := by omega
    have hle : w ≤ w + c := Nat.le_add_right _ _
    rw [if_neg (fun h => hne (Nat.compare_eq_eq.mp h.1)), if_pos (by decide)]
    obtain ⟨d, hd, hiff, hsigned, hdpos, hdmem⟩ := subSame_spec hr hp hne u
    rw [hrs, hps, if_neg (by omega), if_pos (by omega)] at hsigned
    rw [max_eq_left hle, min_eq_right hle] at hiff
    have hexact := clearHighBits_exact hdmem hdpos
    obtain ⟨x, hx, hreturns⟩ := copy_clearHighBits_returns hexact.toHolds
      (fun _ => clearHighBits_positive hdmem hdpos hsigned) target c
    refine ⟨_, x, hd, hx, hreturns.trans ?_⟩
    rw [← hiff]
    omega

/-- **`BigInteger_Montgomery_Reduction`** of a number with the residue `c`. -/
theorem montgomeryReduction_spec {a p : BigInteger} {v c : Nat} (ha : a.Holds v)
    (hsa : a.signed = 1) (hp : p.Exact wpsPrime) (hsp : p.signed = 1) (hv : v < wpsPrime * wpsR)
    (hc : c < wpsPrime) (hmod : c * wpsR ≡ v [MOD wpsPrime]) (result : BigInteger)
    (scratch : Scratch)
    (hroom : 97 ≤ max result.integerArray.length (wordsFor (a.integerLength + 212))) :
    ∃ r scratch', montgomeryReduction a p result 1537 scratch = some (r, scratch') ∧
      (Returns (some r) c ↔ v ≤ c * wpsR ∨ BorrowsKept (wpsPrime + c) wpsPrime) := by
  obtain ⟨r, hrun, hreduces, hsigned, hpos, hmem⟩ := montgomeryLoops_spec ha hp result hv hroom
  have hleft := hreduces.eq_ite wpsPrime_coprime hv hc hmod
  have hexact := clearHighBits_exact hmem hpos
  have hpositive := clearHighBits_positive hmem hpos (hsigned.trans hsa)
  have hcmp := unsignedCompare_eq hexact hp
  rw [montgomeryReduction, hrun]
  simp only [bind_eq_bind, bind_some, hcmp]
  by_cases hle : v ≤ c * wpsR
  · rw [if_pos hle] at hleft
    rw [hleft, if_pos (Nat.compare_eq_lt.mpr hc)]
    have hagain := clearHighBits_exact hexact.memory hexact.arrayLength_pos
    rw [hexact.magnitude, hleft] at hagain
    refine ⟨_, _, rfl, iff_of_true ?_ (.inl hle)⟩
    exact (returns_positive hagain
      (clearHighBits_positive hexact.memory hexact.arrayLength_pos hpositive) c).mpr rfl
  · rw [if_neg hle] at hleft
    rw [hleft, if_neg (fun h => absurd (Nat.compare_eq_lt.mp h) (by omega)), or_iff_right hle]
    rw [hleft] at hexact
    obtain ⟨d, x, hd, hx, hiff⟩ := sub_copy_returns hexact hp hpositive hsp scratch.u r.clearHighBits
    refine ⟨x.clearHighBits, { scratch with u := d }, ?_, hiff⟩
    simp only [hd, hx, bind_some]

/-- **`BigInteger_Montgomery_Reduction`** for the prime of WPS: it stays inside the array of the
    result if and only if that has 97 words already, or the length of `A` alone asks for as many, and
    then returns the residue if and only if none of the borrows of the last subtraction is lost. -/
theorem montgomeryReduction_returns_iff {a p : BigInteger} (ha : a.Bounded) (hsa : a.signed = 1)
    (hp : p.Normal) (hpv : p.value = wpsPrime) (hlt : a.value < (wpsPrime * wpsR : Nat)) {c : Nat}
    (hc : c < wpsPrime) (hmod : c * wpsR ≡ a.magnitude [MOD wpsPrime]) (result : BigInteger)
    (scratch : Scratch) : ((montgomeryReduction a p result 1537 scratch).isSome ↔
        97 ≤ result.integerArray.length ∨ 173 ≤ a.integerLength) ∧
      (Returns ((montgomeryReduction a p result 1537 scratch).map Prod.fst) c ↔
        (97 ≤ result.integerArray.length ∨ 173 ≤ a.integerLength) ∧
          (a.magnitude ≤ c * wpsR ∨ BorrowsKept (wpsPrime + c) wpsPrime)) := by
  have hv : a.magnitude < wpsPrime * wpsR := by
    rw [value, hsa, one_mul] at hlt
    exact Nat.cast_lt.mp hlt
  have hprime : p.magnitude = wpsPrime := hp.magnitude_of_value hpv
  have hexact : p.Exact wpsPrime := hprime ▸ hp.exact
  have hsp : p.signed = 1 := by
    rcases hp.signed with h | h
    · exact h
    · rw [value, h] at hpv
      have hbig := wpsPrime_bounds.1
      have hone : 0 < 256 ^ 191 := Nat.pow_pos (by decide)
      omega
  have hroom : (97 ≤ result.integerArray.length ∨ 173 ≤ a.integerLength) ↔
      97 ≤ max result.integerArray.length (wordsFor (a.integerLength + 212)) := by
    rw [le_max_iff, wordsFor_eq]
    refine or_congr_right ?_
    omega
  rw [hroom]
  by_cases hlong : 97 ≤ max result.integerArray.length (wordsFor (a.integerLength + 212))
  · obtain ⟨r, scratch', hrun, hiff⟩ :=
      montgomeryReduction_spec ha.holds hsa hexact hsp hv hc hmod result scratch hlong
    rw [hrun, and_iff_right hlong]
    exact ⟨iff_of_true rfl hlong, hiff⟩
  · have hnone : montgomeryReduction a p result 1537 scratch = none := by
      rw [montgomeryReduction, montgomeryLoops_eq_none ha.holds hexact result (Nat.not_le.mp hlong)]
      rfl
    rw [hnone]
    refine ⟨iff_of_false (by decide) hlong, iff_of_false ?_ fun h => hlong h.1⟩
    rintro ⟨r, hr, -⟩
    cases hr

/-- The prime of WPS, as `BigInteger_Bin2BI` reads it. -/
def wpsP : BigInteger := bin2BI wpsDhPValue init

theorem wpsP_fields :
    (wpsP.integerArray.length = 48 ∧ wpsP.magnitude = wpsPrime) ∧ wpsP.arrayLength = 48 ∧
      wpsP.integerLength = 192 ∧ wpsP.signed = 1 := by
  decide +kernel

theorem wpsP_exact : wpsP.Exact wpsPrime := by
  obtain ⟨⟨hmemory, hmagnitude⟩, hlength, hbytes, -⟩ := wpsP_fields
  refine ⟨⟨?_, hmagnitude, ?_, ?_, ?_⟩, .inr ?_⟩
  · rw [hmemory, hlength]
  · rw [hlength, hbytes]
    rfl
  · rw [hbytes]
    decide
  · rw [hbytes]
    exact wpsPrime_bounds.2
  · rw [hbytes]
    exact wpsPrime_bounds.1

theorem wpsP_signed : wpsP.signed = 1 := wpsP_fields.2.2.2

theorem wpsP_normal : wpsP.Normal := by
  have hmagnitude : wpsP.magnitude = wpsPrime := wpsP_exact.magnitude
  exact ⟨hmagnitude.symm ▸ wpsP_exact, .inl wpsP_signed, fun _ => wpsP_signed⟩

theorem wpsP_value : wpsP.value = wpsPrime := by
  rw [value, wpsP_signed, wpsP_exact.magnitude, one_mul]

/-- `2^1536` is reduced to 1, in an object just initialized. -/
theorem montgomeryReduction_returns_iff_R :
    Returns ((montgomeryReduction ⟨List.replicate 48 0 ++ [1], 49, 193, 1⟩ wpsP init 1537
      ⟨init, init, init⟩).map Prod.fst) 1 := by
  have hbounded : Bounded ⟨List.replicate 48 0 ++ [1], 49, 193, 1⟩ :=
    ⟨⟨by decide, rfl, by decide, by decide, by decide +kernel⟩, .inl rfl⟩
  exact (montgomeryReduction_returns_iff hbounded rfl wpsP_normal wpsP_value (by decide +kernel)
    (c := 1) (by decide +kernel) (by decide +kernel) init _).2.mpr
      ⟨.inr (by decide), .inl (by decide +kernel)⟩

/-- The number 1 is reduced in a new object: the array has 54 words, and the loops leave it.  And the
    prime and `(2^64 - 1) * 2^1536` are reduced wrongly: the last subtraction loses a borrow. -/
theorem montgomeryReduction_fails :
    montgomeryReduction ⟨[1], 1, 1, 1⟩ wpsP init 1537 ⟨init, init, init⟩ = none ∧
      (2 ^ 64 - 1) * wpsR ≡ wpsPrime + (2 ^ 64 - 1) * wpsR [MOD wpsPrime] ∧
      ¬Returns ((montgomeryReduction
        ⟨wpsP.words ++ [0xFFFFFFFF, 0xFFFFFFFF], 50, 200, 1⟩ wpsP init 1537
          ⟨init, init, init⟩).map Prod.fst) (2 ^ 64 - 1 : Nat) := by
  have hshort : Holds ⟨[1], 1, 1, 1⟩ 1 := ⟨le_rfl, rfl, rfl, Nat.one_pos, by decide⟩
  have hlong : Holds ⟨wpsP.words ++ [0xFFFFFFFF, 0xFFFFFFFF], 50, 200, 1⟩
      (wpsPrime + (2 ^ 64 - 1) * wpsR) :=
    ⟨by decide +kernel, by decide +kernel, rfl, by decide, by decide +kernel⟩
  have hmod : (2 ^ 64 - 1) * wpsR ≡ wpsPrime + (2 ^ 64 - 1) * wpsR [MOD wpsPrime] :=
    (Nat.add_mod_left _ _).symm
  have hlarge : ¬wpsPrime + (2 ^ 64 - 1) * wpsR ≤ (2 ^ 64 - 1) * wpsR := by decide +kernel
  -- the second word of the prime has all bits set, and so has that of the sum
  have hlost : ¬BorrowsKept (wpsPrime + (2 ^ 64 - 1)) wpsPrime := by
    intro hkept
    have hborrow := hkept 1 (by decide +kernel)
    rw [BorrowKeptAt] at hborrow
    exact absurd hborrow (by decide +kernel)
  refine ⟨?_, hmod, ?_⟩
  · rw [montgomeryReduction, montgomeryLoops_eq_none hshort wpsP_exact init (by decide)]
    rfl
  · obtain ⟨r, scratch', hrun, hiff⟩ := montgomeryReduction_spec hlong rfl wpsP_exact
      (by decide +kernel) (by decide +kernel) (by decide +kernel) hmod init ⟨init, init, init⟩
      (by decide)
    rw [hrun]
    intro h
    rcases hiff.mp h with hle | hkept
    · exact hlarge hle
    · exact hlost hkept

end BigInteger

end RalinkSdk.Crypt
