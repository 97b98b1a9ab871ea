import Mathlib

/-!
# Numbers in words

Words of a fixed width in memory, the low word first, and the loops that run over them from the low
word up with a carry.  A loop is a `chain` of steps; what one step does to a word and the carry
determines what the loop does to the number.
-/

namespace RalinkSdk.Lib

open List Nat Option

variable {w : Nat}

/-- The number that words stand for. -/
def wordsNat (ws : List (BitVec w)) : Nat := ofDigits (2 ^ w) (ws.map BitVec.toNat)

@[simp] theorem wordsNat_nil : wordsNat ([] : List (BitVec w)) = 0 := rfl

theorem wordsNat_cons (x : BitVec w) (ws : List (BitVec w)) :
    wordsNat (x :: ws) = x.toNat + 2 ^ w * wordsNat ws :=
  ofDigits_cons

theorem wordsNat_append (us vs : List (BitVec w)) :
    wordsNat (us ++ vs) = wordsNat us + 2 ^ (w * us.length) * wordsNat vs := by
  rw [wordsNat, map_append, ofDigits_append, length_map, ← pow_mul]
  rfl

theorem wordsNat_lt (ws : List (BitVec w)) : wordsNat ws < 2 ^ (w * ws.length) := by
  induction ws with
  | nil => exact Nat.one_pos
  | cons x ws ih =>
    have hx := x.isLt
    have hle : 2 ^ w * (wordsNat ws + 1) ≤ 2 ^ w * 2 ^ (w * ws.length) :=
      Nat.mul_le_mul_left _ ih
    rw [Nat.mul_succ] at hle
    rw [wordsNat_cons, length_cons, Nat.mul_succ, Nat.pow_add, Nat.mul_comm (2 ^ (w * _))]
    omega

@[simp] theorem wordsNat_replicate (n : Nat) : wordsNat (replicate n (0 : BitVec w)) = 0 := by
  simp [wordsNat]

theorem wordsNat_eq_zero {ws : List (BitVec w)} : wordsNat ws = 0 ↔ ∀ x ∈ ws, x = 0 := by
  induction ws with
  | nil => simp
  | cons x ws ih =>
    have hpos : 2 ^ w ≠ 0 := (Nat.two_pow_pos w).ne'
    have hx : x.toNat = 0 ↔ x = 0 := by
      rw [← BitVec.toNat_inj]
      rfl
    rw [wordsNat_cons, Nat.add_eq_zero_iff, Nat.mul_eq_zero, or_iff_right hpos, ih, hx,
      forall_mem_cons]

theorem wordsNat_take_add_drop (ws : List (BitVec w)) {n : Nat} (h : n ≤ ws.length) :
    wordsNat (ws.take n) + 2 ^ (w * n) * wordsNat (ws.drop n) = wordsNat ws := by
  conv_rhs => rw [← take_append_drop n ws]
  rw [wordsNat_append, length_take_of_le h]

theorem eq_of_wordsNat_eq {us vs : List (BitVec w)} (hlen : us.length = vs.length)
    (h : wordsNat us = wordsNat vs) : us = vs := by
  induction us generalizing vs with
  | nil => exact (length_eq_zero_iff.mp hlen.symm).symm
  | cons x us ih =>
    obtain _ | ⟨y, vs⟩ := vs
    · cases hlen
    rw [wordsNat_cons, wordsNat_cons] at h
    have hmod := congrArg (· % 2 ^ w) h
    have hdiv := congrArg (· / 2 ^ w) h
    simp only [add_mul_mod_self_left, mod_eq_of_lt x.isLt, mod_eq_of_lt y.isLt] at hmod
    simp only [add_mul_div_left _ _ (Nat.two_pow_pos w), div_eq_of_lt x.isLt,
      div_eq_of_lt y.isLt, Nat.zero_add] at hdiv
    rw [BitVec.eq_of_toNat_eq hmod, ih (succ.inj hlen) hdiv]

/-! ## The words of a number -/

/-- The low `k` words of a number. -/
def toWords (w k n : Nat) : List (BitVec w) :=
  (range k).map fun i => BitVec.ofNat w (n / 2 ^ (w * i))

@[simp] theorem length_toWords (k n : Nat) : (toWords w k n).length = k := by
  rw [toWords, length_map, length_range]

theorem wordsNat_toWords (k n : Nat) : wordsNat (toWords w k n) = n % 2 ^ (w * k) := by
  induction k with
  | zero => rw [Nat.mul_zero, pow_zero, mod_one]; rfl
  | succ k ih =>
    have hsplit : toWords w (k + 1) n = toWords w k n ++ [BitVec.ofNat w (n / 2 ^ (w * k))] := by
      rw [toWords, range_succ, map_append]
      rfl
    rw [hsplit, wordsNat_append, ih, length_toWords, wordsNat_cons, wordsNat_nil, Nat.mul_zero,
      Nat.add_zero, BitVec.toNat_ofNat, Nat.mul_succ, pow_add, mod_mul]

/-! ## Digits of any size -/

section

variable {α : Type*} (b : Nat)

theorem ofDigits_map_add (f g : α → Nat) (l : List α) : ofDigits b (l.map fun x => f x + g x) =
      ofDigits b (l.map f) + ofDigits b (l.map g) := by
  induction l with
  | nil => rfl
  | cons x l ih =>
    rw [map_cons, map_cons, map_cons, ofDigits_cons, ofDigits_cons, ofDigits_cons, ih]
    ring

theorem ofDigits_map_mul (a : Nat) (f : α → Nat) (l : List α) :
    ofDigits b (l.map fun x => f x * a) = ofDigits b (l.map f) * a := by
  induction l with
  | nil => rw [map_nil, map_nil, ofDigits_nil, Nat.zero_mul]
  | cons x l ih =>
    rw [map_cons, map_cons, ofDigits_cons, ofDigits_cons, ih]
    ring

end

/-! ## Loops with a carry -/

section

variable {α σ : Type*} (step : α → BitVec w → σ → BitVec w × σ)
  (finish : List (BitVec w) → σ → Option (List (BitVec w)))

/-- A loop over operands and the words in memory, which it replaces; at the end `finish` gets the
    rest of the memory and the carry.  `none` stands for an access behind the memory. -/
def chain : List α → List (BitVec w) → σ → Option (List (BitVec w))
  | [], rs, c => finish rs c
  | _ :: _, [], _ => none
  | a :: as, r :: rs, c => (chain as rs (step a r c).2).map ((step a r c).1 :: ·)

variable {step finish}

theorem length_chain (hfinish : ∀ rs c out, finish rs c = some out → out.length = rs.length)
    {as : List α} {rs out : List (BitVec w)} {c : σ} (h : chain step finish as rs c = some out) :
    out.length = rs.length := by
  induction as generalizing rs c out with
  | nil => exact hfinish rs c out h
  | cons a as ih =>
    obtain _ | ⟨r, rs⟩ := rs
    · cases h
    rw [chain] at h
    obtain ⟨rest, hrest, rfl⟩ := map_eq_some_iff.mp h
    rw [length_cons, length_cons, ih hrest]

theorem chain_behind {tail : List (BitVec w)}
    (hfinish : ∀ rs c out, finish rs c = some out → finish (rs ++ tail) c = some (out ++ tail))
    {as : List α} {rs out : List (BitVec w)} {c : σ} (h : chain step finish as rs c = some out) :
    chain step finish as (rs ++ tail) c = some (out ++ tail) := by
  induction as generalizing rs c out with
  | nil => exact hfinish rs c out h
  | cons a as ih =>
    obtain _ | ⟨r, rs⟩ := rs
    · cases h
    rw [chain] at h
    obtain ⟨rest, hrest, rfl⟩ := map_eq_some_iff.mp h
    rw [cons_append, chain, ih hrest]
    rfl

end

section

variable {α : Type*} {step : α → BitVec w → Nat → BitVec w × Nat}
  {finish : List (BitVec w) → Nat → Option (List (BitVec w))} {f : α → Nat}
  {bound : Nat} {p : BitVec w → Prop}

/-- A step adds the operand and the carry to the word in memory, where that word has `p`; the carry
    stays below a bound. -/
def StepExact (step : α → BitVec w → Nat → BitVec w × Nat) (f : α → Nat) (bound : Nat)
    (p : BitVec w → Prop) : Prop :=
  ∀ a r c, c < bound → p r → (step a r c).2 < bound ∧
    (step a r c).1.toNat + 2 ^ w * (step a r c).2 = r.toNat + f a + c

/-- **Chains**: where each step is exact, and the end takes the last carry, the loop adds its
    operands to the number in memory, if the sum has room there. -/
theorem chain_value (hstep : StepExact step f bound p) {as : List α} {rs : List (BitVec w)}
    {c : Nat} (hfinish : ∀ c < bound,
      wordsNat (rs.drop as.length) + c < 2 ^ (w * (rs.length - as.length)) →
      ∃ out, finish (rs.drop as.length) c = some out ∧ out.length = rs.length - as.length ∧
        wordsNat out = wordsNat (rs.drop as.length) + c)
    (hlen : as.length ≤ rs.length) (hc : c < bound) (hall : ∀ r ∈ rs, p r)
    (hfits : wordsNat rs + ofDigits (2 ^ w) (as.map f) + c < 2 ^ (w * rs.length)) :
    ∃ out, chain step finish as rs c = some out ∧ out.length = rs.length ∧
      wordsNat out = wordsNat rs + ofDigits (2 ^ w) (as.map f) + c := by
  induction as generalizing rs c with
  | nil => exact hfinish c hc hfits
  | cons a as ih =>
    obtain _ | ⟨r, rs⟩ := rs
    · cases hlen
    obtain ⟨hp, hall⟩ := forall_mem_cons.mp hall
    obtain ⟨hc', hexact⟩ := hstep a r c hc hp
    -- what is left to do is the whole less the word that is done
    have hsum : wordsNat (r :: rs) + ofDigits (2 ^ w) ((a :: as).map f) + c =
        (step a r c).1.toNat +
          2 ^ w * (wordsNat rs + ofDigits (2 ^ w) (as.map f) + (step a r c).2) := by
      rw [wordsNat_cons, map_cons, ofDigits_cons, Nat.mul_add, Nat.mul_add]
      omega
    have hpow : 2 ^ (w * (r :: rs).length) = 2 ^ w * 2 ^ (w * rs.length) := by
      rw [length_cons, Nat.mul_succ, Nat.pow_add, Nat.mul_comm]
    rw [hsum] at hfits ⊢
    have hfits' : wordsNat rs + ofDigits (2 ^ w) (as.map f) + (step a r c).2 <
        2 ^ (w * rs.length) :=
      Nat.lt_of_mul_lt_mul_left ((Nat.le_add_left _ _).trans_lt (hpow ▸ hfits))
    have hshift : (r :: rs).length - (a :: as).length = rs.length - as.length :=
      succ_sub_succ _ _
    rw [hshift] at hfinish
    obtain ⟨out, hrun, houtLen, hout⟩ := ih hfinish (le_of_succ_le_succ hlen) hc' hall hfits'
    refine ⟨(step a r c).1 :: out, ?_, ?_, ?_⟩
    · rw [chain, hrun]
      rfl
    · rw [length_cons, houtLen, length_cons]
    · rw [wordsNat_cons, hout]

theorem chain_sum (hstep : StepExact step f bound p) {as : List α} {rs : List (BitVec w)}
    (hlen : as.length = rs.length) (hbound : 0 < bound) (hall : ∀ r ∈ rs, p r)
    (hfits : wordsNat rs + ofDigits (2 ^ w) (as.map f) < 2 ^ (w * rs.length)) :
    ∃ out, chain step (fun rest _ => some rest) as rs 0 = some out ∧ out.length = rs.length ∧
      wordsNat out = wordsNat rs + ofDigits (2 ^ w) (as.map f) := by
  refine chain_value hstep (fun c _ hlt => ?_) hlen.le hbound hall hfits
  rw [hlen, Nat.sub_self, Nat.mul_zero, pow_zero] at hlt
  refine ⟨_, rfl, ?_, ?_⟩
  · rw [length_drop, hlen]
  · omega

theorem chain_product {step : BitVec w → BitVec w → Nat → BitVec w × Nat} {a : Nat}
    (hstep : StepExact step (fun x => x.toNat * a) bound p) {ws rs : List (BitVec w)}
    (hfinish : ∀ c < bound,
      wordsNat (rs.drop ws.length) + c < 2 ^ (w * (rs.length - ws.length)) →
      ∃ out, finish (rs.drop ws.length) c = some out ∧ out.length = rs.length - ws.length ∧
        wordsNat out = wordsNat (rs.drop ws.length) + c)
    (hlen : ws.length ≤ rs.length) (hbound : 0 < bound) (hall : ∀ r ∈ rs, p r)
    (hfits : wordsNat rs + a * wordsNat ws < 2 ^ (w * rs.length)) :
    ∃ out, chain step finish ws rs 0 = some out ∧ out.length = rs.length ∧
      wordsNat out = wordsNat rs + a * wordsNat ws := by
  have hproduct : ofDigits (2 ^ w) (ws.map fun x => x.toNat * a) = a * wordsNat ws := by
    rw [ofDigits_map_mul, Nat.mul_comm]
    rfl
  have hchain := chain_value hstep hfinish hlen hbound hall (by rwa [hproduct, Nat.add_zero])
  rwa [hproduct, Nat.add_zero] at hchain

end

end RalinkSdk.Lib
