import Mathlib

/-!
# Montgomery's reduction

Division by `r` modulo `p`, from the low digit up: a multiple of `p` clears the digit, which then is
dropped.  What is left lies below `2 * p`, and a subtraction of `p` finishes the work.

## Main results

- `Reduces.digit`: one digit.
-/

namespace RalinkSdk.Lib

open Nat

/-- `t` is what is left of `a` when multiples of `p` have cleared the digits below `r`. -/
def Reduces (p r a t : Nat) : Prop := ∃ m < r, t * r = a + m * p

variable {p r a t b m c : Nat}

theorem Reduces.refl (p a : Nat) : Reduces p 1 a a :=
  ⟨0, Nat.one_pos, by rw [Nat.mul_one, Nat.zero_mul, Nat.add_zero]⟩

theorem dvd_add_mod_mul (hb : 0 < b) (hp : p % b = b - 1) (a : Nat) : b ∣ a + a % b * p := by
  have hsucc : b ∣ p + 1 := by
    rw [dvd_iff_mod_eq_zero, add_mod, hp, add_mod_mod, Nat.sub_add_cancel hb, mod_self]
  have hsplit : a + a % b * p = b * (a / b) + a % b * (p + 1) := by
    have h := div_add_mod a b
    rw [Nat.mul_succ]
    omega
  rw [hsplit]
  exact Nat.dvd_add (Nat.dvd_mul_right _ _) (hsucc.mul_left _)

theorem Reduces.digit {x : Nat} (hm : m < b) (hx : x * b = a + m * p) (h : Reduces p r x t) :
    Reduces p (b * r) a t := by
  obtain ⟨k, hk, ht⟩ := h
  refine ⟨m + b * k, ?_, ?_⟩
  · calc m + b * k < b + b * k := Nat.add_lt_add_right hm _
      _ = b * (k + 1) := by rw [Nat.mul_succ, Nat.add_comm]
      _ ≤ b * r := Nat.mul_le_mul_left _ hk
  · calc t * (b * r) = b * (t * r) := by ring
      _ = x * b + b * (k * p) := by rw [ht]; ring
      _ = a + (m + b * k) * p := by rw [hx]; ring

theorem Reduces.lt_two_mul (h : Reduces p r a t) (ha : a < p * r) : t < 2 * p := by
  obtain ⟨m, hm, ht⟩ := h
  have hmp : m * p ≤ r * p := Nat.mul_le_mul_right _ hm.le
  have hlt : t * r < 2 * p * r := by
    rw [ht, Nat.mul_assoc, Nat.two_mul]
    rw [Nat.mul_comm r p] at hmp
    omega
  exact Nat.lt_of_mul_lt_mul_right hlt

theorem Reduces.modEq (h : Reduces p r a t) : t * r ≡ a [MOD p] := by
  obtain ⟨m, -, ht⟩ := h
  rw [ht]
  exact (modEq_iff_dvd' (Nat.le_add_right _ _)).mpr (by simp) |>.symm

/-- **What is left** is the residue that is asked for, or that and `p`. -/
theorem Reduces.eq_ite (h : Reduces p r a t) (hcoprime : Nat.Coprime p r) (ha : a < p * r)
    (hc : c < p) (hcr : c * r ≡ a [MOD p]) : t = if a ≤ c * r then c else p + c := by
  have hmod : t ≡ c [MOD p] := (h.modEq.trans hcr.symm).cancel_right_of_coprime hcoprime
  have hlt := h.lt_two_mul ha
  obtain ⟨m, hm, ht⟩ := h
  have hmp : m * p < r * p := Nat.mul_lt_mul_of_pos_right hm (zero_lt_of_lt hc)
  rw [Nat.ModEq, mod_eq_of_lt hc] at hmod
  rcases Nat.lt_or_ge t p with hsmall | hlarge
  · -- the residue itself: the multiple is not negative
    rw [mod_eq_of_lt hsmall] at hmod
    rw [hmod] at ht
    rw [if_pos (ht ▸ Nat.le_add_right _ _), hmod]
  · -- `p` more: the multiple is below `r * p`
    rw [mod_eq_sub_mod hlarge, mod_eq_of_lt (by omega)] at hmod
    have hsum : t = p + c := by omega
    rw [hsum, Nat.add_mul, Nat.mul_comm p r] at ht
    rw [if_neg (by omega), hsum]

end RalinkSdk.Lib
