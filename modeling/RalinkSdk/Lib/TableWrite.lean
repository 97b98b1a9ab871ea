import Mathlib.Data.BitVec
import Mathlib.Logic.Function.Basic

/-!
# Writing a table through a pointer

Values are written one behind the other into a table, at a pointer of `w` bits that goes on by one
and wraps around.  As long as there are no more values than the pointer has positions, each of them
is where the pointer stood, and whatever is farther from the pointer than they reach is unchanged.
-/

namespace RalinkSdk.Lib

open Function BitVec List Nat

variable {α : Type} {w : Nat}

/-- The table after the values are written from the pointer on. -/
def putAll (table : Nat → α) (ptr : BitVec w) : List α → Nat → α
  | [] => table
  | x :: xs => putAll (update table ptr.toNat x) (ptr + 1) xs

@[simp] theorem putAll_cons (table : Nat → α) (ptr : BitVec w) (x : α) (xs : List α) :
    putAll table ptr (x :: xs) = putAll (update table ptr.toNat x) (ptr + 1) xs := rfl

theorem succ_add_ofNat (ptr : BitVec w) (k : Nat) :
    ptr + 1 + BitVec.ofNat w k = ptr + BitVec.ofNat w (k + 1) := by
  rw [Nat.add_comm, ofNat_add, ← BitVec.add_assoc]
  rfl

/-- How far an index is ahead of the pointer. -/
def ahead (ptr i : BitVec w) : Nat := (i - ptr).toNat

theorem ahead_lt (ptr i : BitVec w) : ahead ptr i < 2 ^ w := (i - ptr).isLt

@[simp] theorem ahead_self (ptr : BitVec w) : ahead ptr ptr = 0 := by
  simp [ahead]

theorem ahead_ofNat (ptr : BitVec w) {k : Nat} (hk : k < 2 ^ w) :
    ahead ptr (ptr + BitVec.ofNat w k) = k := by
  rw [ahead, BitVec.add_comm, BitVec.add_sub_cancel, toNat_ofNat, mod_eq_of_lt hk]

theorem ahead_of_le {ptr i : BitVec w} (h : ptr ≤ i) : ahead ptr i = i.toNat - ptr.toNat :=
  toNat_sub_of_le h

theorem add_ahead (ptr i : BitVec w) : ptr + BitVec.ofNat w (ahead ptr i) = i := by
  rw [ahead, BitVec.ofNat_toNat, setWidth_eq, BitVec.add_comm, BitVec.sub_add_cancel]

theorem ahead_succ {ptr i : BitVec w} (h : ahead ptr i ≠ 0) :
    ahead (ptr + 1) i + 1 = ahead ptr i := by
  have hlt := ahead_lt ptr i
  obtain ⟨k, hk⟩ := exists_eq_succ_of_ne_zero h
  have hi : i = ptr + 1 + BitVec.ofNat w k := by
    rw [succ_add_ofNat]
    exact (add_ahead ptr i).symm.trans (by rw [hk])
  rw [hk] at hlt
  rw [hk, hi, ahead_ofNat _ (lt_of_succ_lt hlt)]

theorem ahead_succ_self (ptr : BitVec w) : ahead (ptr + 1) ptr + 1 = 2 ^ w := by
  have hback : ptr - (ptr + 1) = allOnes w := by
    rw [sub_add_cancel_left]
    exact neg_one_eq_allOnes
  rw [ahead, hback, toNat_allOnes]
  exact Nat.sub_add_cancel Nat.one_le_two_pow

theorem putAll_outside (xs : List α) (table : Nat → α) (ptr : BitVec w) {i : BitVec w}
    (h : xs.length ≤ ahead ptr i) : putAll table ptr xs i.toNat = table i.toNat := by
  induction xs generalizing table ptr with
  | nil => rfl
  | cons x xs ih =>
    rw [length_cons] at h
    have hne : ahead ptr i ≠ 0 := Nat.ne_of_gt (Nat.lt_of_lt_of_le (succ_pos _) h)
    have hstep := ahead_succ hne
    rw [putAll_cons, ih _ _ (by omega)]
    apply update_of_ne
    intro heq
    apply hne
    rw [eq_of_toNat_eq heq, ahead_self]

theorem putAll_above (xs : List α) (table : Nat → α) (ptr : BitVec w) {i : Nat} (h : 2 ^ w ≤ i) :
    putAll table ptr xs i = table i := by
  induction xs generalizing table ptr with
  | nil => rfl
  | cons x xs ih =>
    rw [putAll_cons, ih]
    apply update_of_ne
    exact Nat.ne_of_gt (Nat.lt_of_lt_of_le ptr.isLt h)

section

variable {P : α → Prop} {xs : List α} (hxs : ∀ x ∈ xs, P x)
include hxs

theorem putAll_keeps (table : Nat → α) (ptr : BitVec w) {i : Nat} (h : P (table i)) :
    P (putAll table ptr xs i) := by
  induction xs generalizing table ptr with
  | nil => exact h
  | cons x xs ih =>
    have hx := hxs x mem_cons_self
    apply ih fun y hy => hxs y (mem_cons_of_mem x hy)
    rw [update_apply]
    split
    · exact hx
    · exact h

theorem putAll_reaches (table : Nat → α) (ptr : BitVec w) {i : BitVec w}
    (h : ahead ptr i < xs.length) : P (putAll table ptr xs i.toNat) := by
  induction xs generalizing table ptr with
  | nil => exact absurd h (Nat.not_lt_zero _)
  | cons x xs ih =>
    have hrest : ∀ y ∈ xs, P y := fun y hy => hxs y (mem_cons_of_mem x hy)
    rw [putAll_cons]
    rcases Nat.eq_zero_or_pos (ahead ptr i) with hzero | hpos
    · -- the pointer is there; what comes around later is a value too
      have hi : ptr = i := by
        rw [← add_ahead ptr i, hzero]
        exact (BitVec.add_zero ptr).symm
      apply putAll_keeps hrest
      rw [hi, update_self]
      exact hxs x mem_cons_self
    · have hstep := ahead_succ (Nat.ne_of_gt hpos)
      rw [length_cons, ← hstep] at h
      exact ih hrest _ _ (lt_of_succ_lt_succ h)

end

theorem putAll_at (xs : List α) (table : Nat → α) (ptr : BitVec w) (hlen : xs.length ≤ 2 ^ w)
    {k : Nat} (hk : k < xs.length) :
    putAll table ptr xs (ptr + BitVec.ofNat w k).toNat = xs[k] := by
  induction xs generalizing table ptr k with
  | nil => exact absurd hk (Nat.not_lt_zero k)
  | cons x xs ih =>
    rw [length_cons] at hlen
    cases k with
    | zero =>
      -- the rest does not come around to the first position
      have hfar := ahead_succ_self ptr
      rw [putAll_cons, show ptr + BitVec.ofNat w 0 = ptr from BitVec.add_zero ptr,
        putAll_outside _ _ _ (by omega), update_self]
      rfl
    | succ k =>
      rw [putAll_cons, ← succ_add_ofNat, ih _ _ (by omega) (lt_of_succ_lt_succ hk)]
      rfl

end RalinkSdk.Lib
