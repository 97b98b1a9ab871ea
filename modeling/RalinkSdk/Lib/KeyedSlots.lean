import Mathlib.Algebra.BigOperators.Fin

/-!
# Tables of slots that are searched by a key

A table of `n` slots, each of which is free or holds a key.  A search takes the first slot with
the key, and as long as no two slots hold the same one that is the only slot with it.
-/

namespace RalinkSdk.Lib

open List

universe u

variable {κ : Type u} {n : Nat}

/-- No two slots hold the same key. -/
def KeysDistinct (used : Fin n → Option κ) : Prop :=
  ∀ i j k, used i = some k → used j = some k → i = j

variable {i : Fin n} {p q : Fin n → Bool} {used used' : Fin n → Option κ}

theorem finRange_find_none : (finRange n).find? p = none ↔ ∀ i, p i = false := by
  simp

/-- **Search**: where the keys are distinct, the slot with the key is the one that is found. -/
theorem KeysDistinct.find_eq (h : KeysDistinct used) {k : κ}
    (hp : ∀ j, p j = true ↔ used j = some k) :
    (finRange n).find? p = some i ↔ used i = some k := by
  constructor
  · intro hfound
    exact (hp i).mp (List.find?_some hfound)
  · intro hk
    cases hfound : (finRange n).find? p with
    | none =>
      have hnot := finRange_find_none.mp hfound i
      rw [(hp i).mpr hk] at hnot
      cases hnot
    | some j => rw [h j i k ((hp j).mp (List.find?_some hfound)) hk]

/-- **Write**: a slot may take a key that no other slot holds. -/
theorem KeysDistinct.put (h : KeysDistinct used) (hrest : ∀ j, j ≠ i → used' j = used j)
    (hnew : ∀ k, used' i = some k → ∀ j, j ≠ i → used j ≠ some k) : KeysDistinct used' := by
  intro a b k hka hkb
  by_cases hai : a = i
  · by_cases hbi : b = i
    · exact hai.trans hbi.symm
    · rw [hrest b hbi] at hkb
      exact absurd hkb (hnew k (hai ▸ hka) b hbi)
  · rw [hrest a hai] at hka
    by_cases hbi : b = i
    · exact absurd hka (hnew k (hbi ▸ hkb) a hai)
    · rw [hrest b hbi] at hkb
      exact h a b k hka hkb

theorem KeysDistinct.mono (h : KeysDistinct used)
    (hsub : ∀ j k, used' j = some k → used j = some k) : KeysDistinct used' :=
  fun a b k ha hb => h a b k (hsub a k ha) (hsub b k hb)

theorem card_put (hrest : ∀ j, j ≠ i → q j = p j) :
    ((Finset.univ.filter fun j => q j = true).card : Int) =
      (Finset.univ.filter fun j => p j = true).card + (q i).toInt - (p i).toInt := by
  have hsame : ∑ j ∈ Finset.univ.erase i, (if q j = true then 1 else 0) =
      ∑ j ∈ Finset.univ.erase i, if p j = true then 1 else 0 := by
    apply Finset.sum_congr rfl
    intro j hj
    rw [hrest j (Finset.ne_of_mem_erase hj)]
  rw [Finset.card_filter, Finset.card_filter, ← Finset.add_sum_erase _ _ (Finset.mem_univ i),
    ← Finset.add_sum_erase _ (fun j => if p j = true then 1 else 0) (Finset.mem_univ i), hsame]
  cases q i <;> cases p i <;> simp [add_comm]

end RalinkSdk.Lib
