import Mathlib

/-!
# Powers from the high digit down

The digits of an exponent, the high one first: each raises the power so far to the base of the
digits, and multiplies it with a small power.
-/

namespace RalinkSdk.Lib

open Nat List

/-! ## In a monoid -/

section

variable {M : Type*} [Monoid M] (b : Nat) (g : M)

/-- A digit more of the exponent. -/
def powerStep (y : M) (d : Nat) : M := y ^ b * g ^ d

theorem powerStep_pow (n d : Nat) : powerStep b g (g ^ n) d = g ^ (n * b + d) := by
  rw [powerStep, pow_add, pow_mul]

/-- **All the digits**, behind an exponent `n`. -/
theorem foldl_powerStep (ds : List Nat) (n : Nat) :
    ds.foldl (powerStep b g) (g ^ n) = g ^ (n * b ^ ds.length + ofDigits b ds.reverse) := by
  induction ds generalizing n with
  | nil => rw [foldl_nil, length_nil, pow_zero, Nat.mul_one]; rfl
  | cons d ds ih =>
    have hdigits : ofDigits b (d :: ds).reverse =
        ofDigits b ds.reverse + b ^ ds.length * d := by
      rw [reverse_cons, ofDigits_append, length_reverse, ofDigits_singleton]
    rw [foldl_cons, powerStep_pow, ih, hdigits, length_cons, pow_succ]
    congr 1
    ring

end

/-! ## With remainders -/

section

variable (p b g : Nat)

/-- A digit more, and the remainder. -/
def modPowerStep (y d : Nat) : Nat := powerStep b g y d % p

variable {p} in
theorem modPowerStep_modEq {y z : Nat} (h : y ≡ z [MOD p]) (d : Nat) :
    modPowerStep p b g y d ≡ powerStep b g z d [MOD p] := by
  have hstep : powerStep b g y d ≡ powerStep b g z d [MOD p] := (h.pow b).mul_right _
  exact (mod_modEq _ _).trans hstep

/-- **All the digits**, with remainders. -/
theorem foldl_modPowerStep {y z : Nat} (h : y ≡ z [MOD p]) (ds : List Nat) :
    ds.foldl (modPowerStep p b g) y ≡ ds.foldl (powerStep b g) z [MOD p] := by
  induction ds generalizing y z with
  | nil => exact h
  | cons d ds ih => exact ih (modPowerStep_modEq b g h d)

theorem foldl_modPowerStep_one (ds : List Nat) :
    ds.foldl (modPowerStep p b g) 1 ≡ g ^ ofDigits b ds.reverse [MOD p] := by
  have hpower := foldl_powerStep b g ds 0
  rw [pow_zero, Nat.zero_mul, Nat.zero_add] at hpower
  rw [← hpower]
  exact foldl_modPowerStep p b g rfl ds

end

end RalinkSdk.Lib
