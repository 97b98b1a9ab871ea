import Mathlib.Data.List.Basic
import Mathlib.Data.List.Count

/-!
# Slot tables with a reverse index

A table of `n` slots, each of which is free or holds a key, an index that says for
each key which slot it is in, and a counter of the slots in use.  Slot 0 stays free,
so that index 0 can mean that a key is in no slot.
-/

namespace RalinkSdk.Lib

open List

universe u

variable {κ : Type u}

/-- The number of slots below `n` that are in use. -/
def usedCount (n : Nat) (used : Nat → Option κ) : Nat :=
  (range n).countP fun i => (used i).isSome

theorem usedCount_claim {n i : Nat} {used used' : Nat → Option κ} (hi : i < n)
    (hfree : used i = none) (hnew : (used' i).isSome) (hrest : ∀ j, j ≠ i → used' j = used j) :
    usedCount n used' = usedCount n used + 1 := by
  unfold usedCount
  induction n with
  | zero => exact absurd hi (Nat.not_lt_zero i)
  | succ n ih =>
    rw [range_succ, countP_append, countP_append]
    by_cases hin : i = n
    · -- the new slot is the last one, and the others are the same
      have hsame : (range n).countP (fun j => (used' j).isSome) =
          (range n).countP fun j => (used j).isSome := by
        apply countP_congr
        intro j hj
        have hlt := mem_range.mp hj
        rw [hrest j (by omega)]
      rw [hsame, ← hin]
      simp [hfree, hnew]
    · have hlast : used' n = used n := hrest n (fun h => hin h.symm)
      rw [ih (by omega), countP_singleton, countP_singleton, hlast]
      omega

/-! ## Tables -/

/-- Which key each slot holds, which slot each key is in, and a counter. -/
structure SlotTable (κ : Type u) where
  used : Nat → Option κ
  index : κ → Nat
  count : Nat

/-- Slots, index and counter agree.  Only valid keys are in the table. -/
structure SlotTable.Ok (n : Nat) (valid : κ → Prop) (t : SlotTable κ) : Prop where
  zero : t.used 0 = none
  keys : ∀ i k, i < n → t.used i = some k → valid k
  index_iff : ∀ k, valid k → ∀ i, (i ≠ 0 ∧ t.index k = i) ↔ (i < n ∧ t.used i = some k)
  count_eq : t.count = usedCount n t.used

namespace SlotTable

variable {n : Nat} {valid : κ → Prop} {t t' : SlotTable κ} {i : Nat} {k : κ}

theorem Ok.index_of_used (h : t.Ok n valid) (hi : i < n) (hk : t.used i = some k) :
    t.index k = i ∧ i ≠ 0 := by
  have hidx := (h.index_iff k (h.keys i k hi hk) i).mpr ⟨hi, hk⟩
  exact ⟨hidx.2, hidx.1⟩

theorem Ok.used_of_index (h : t.Ok n valid) (hk : valid k) (hne : t.index k ≠ 0) :
    t.index k < n ∧ t.used (t.index k) = some k :=
  (h.index_iff k hk (t.index k)).mp ⟨hne, rfl⟩

theorem Ok.count_pos (h : t.Ok n valid) (hi : i < n) (hk : t.used i = some k) : 1 ≤ t.count := by
  rw [h.count_eq]
  apply countP_pos_iff.mpr
  exact ⟨i, mem_range.mpr hi, by rw [hk]; rfl⟩

/-- **Claim**: a key that is in no slot takes a free one. -/
theorem Ok.claim (h : t.Ok n valid) (hk : valid k) (hi : i < n) (hi0 : i ≠ 0)
    (hfree : t.used i = none) (hout : t.index k = 0) (hnew : t'.used i = some k)
    (hrest : ∀ j, j ≠ i → t'.used j = t.used j) (hidx : t'.index k = i)
    (hidxs : ∀ k', valid k' → k' ≠ k → t'.index k' = t.index k')
    (hcount : t'.count = t.count + 1) : t'.Ok n valid where
  zero := by
    rw [hrest 0 hi0.symm]
    exact h.zero
  keys := by
    intro j k' hj hk'
    by_cases hji : j = i
    · rw [hji, hnew, Option.some.injEq] at hk'
      exact hk' ▸ hk
    · exact h.keys j k' hj (hrest j hji ▸ hk')
  index_iff := by
    intro k' hk' j
    by_cases hkk : k' = k
    · -- the key itself: only the new slot holds it
      rw [hkk, hidx]
      constructor
      · rintro ⟨-, rfl⟩
        exact ⟨hi, hnew⟩
      · rintro ⟨hj, hjk⟩
        by_cases hji : j = i
        · exact ⟨hji ▸ hi0, hji.symm⟩
        · rw [hrest j hji] at hjk
          -- another slot with the key would have had an index
          have hold := h.index_of_used hj hjk
          exact absurd (hold.1.symm.trans hout) hold.2
    · rw [hidxs k' hk' hkk, h.index_iff k' hk' j]
      by_cases hji : j = i
      · rw [hji, hnew, hfree]
        simp [Ne.symm hkk]
      · rw [hrest j hji]
  count_eq := by
    rw [usedCount_claim hi hfree (by rw [hnew]; rfl) hrest, hcount, h.count_eq]

/-- **Release**: a slot in use is freed and its key is in no slot any more. -/
theorem Ok.release (h : t.Ok n valid) (hi : i < n) (hk : t.used i = some k)
    (hnew : t'.used i = none) (hrest : ∀ j, j ≠ i → t'.used j = t.used j) (hidx : t'.index k = 0)
    (hidxs : ∀ k', valid k' → k' ≠ k → t'.index k' = t.index k')
    (hcount : t'.count = t.count - 1) : t'.Ok n valid := by
  obtain ⟨hik, hi0⟩ := h.index_of_used hi hk
  -- counted backwards, the release is a claim
  have hone : usedCount n t.used = usedCount n t'.used + 1 :=
    usedCount_claim hi hnew (by rw [hk]; rfl) (fun j hj => (hrest j hj).symm)
  rw [← h.count_eq] at hone
  refine ⟨?_, ?_, ?_, by omega⟩
  · rw [hrest 0 hi0.symm]
    exact h.zero
  · intro j k' hj hk'
    by_cases hji : j = i
    · rw [hji, hnew] at hk'
      exact absurd hk' (by simp)
    · exact h.keys j k' hj (hrest j hji ▸ hk')
  · intro k' hk' j
    by_cases hkk : k' = k
    · rw [hkk, hidx]
      constructor
      · rintro ⟨hj, rfl⟩
        exact absurd rfl hj
      · rintro ⟨hj, hjk⟩
        by_cases hji : j = i
        · rw [hji, hnew] at hjk
          exact absurd hjk (by simp)
        · -- no other slot holds the key
          rw [hrest j hji] at hjk
          exact absurd ((h.index_of_used hj hjk).1.symm.trans hik) hji
    · rw [hidxs k' hk' hkk, h.index_iff k' hk' j]
      by_cases hji : j = i
      · rw [hji, hnew, hk]
        simp [Ne.symm hkk]
      · rw [hrest j hji]

/-- **Free slot**: with the counter below `n - 1` there is a free slot besides 0. -/
theorem Ok.exists_free (h : t.Ok n valid) (hlt : t.count < n - 1) :
    ∃ i, i ≠ 0 ∧ i < n ∧ t.used i = none := by
  by_contra hfull
  have hall : ∀ i, i ≠ 0 → i < n → (t.used i).isSome := by
    intro i hi0 hin
    rw [Option.isSome_iff_ne_none]
    exact fun hnone => hfull ⟨i, hi0, hin, hnone⟩
  -- all slots but the first are in use
  have hcount : ∀ m, m + 1 ≤ n → usedCount (m + 1) t.used = m := by
    intro m
    induction m with
    | zero =>
      intro _
      simp [usedCount, range_succ, h.zero]
    | succ m ih =>
      intro hm
      have hprev := ih (by omega)
      unfold usedCount at hprev ⊢
      rw [range_succ, countP_append, hprev, countP_singleton,
        if_pos (hall (m + 1) (by omega) (by omega))]
  have hn := hcount (n - 1) (by omega)
  rw [Nat.sub_add_cancel (by omega), ← h.count_eq] at hn
  omega

end SlotTable

theorem SlotTable.ok_empty {n : Nat} {valid : κ → Prop} {t : SlotTable κ}
    (hused : ∀ i, t.used i = none) (hindex : ∀ k, t.index k = 0) (hcount : t.count = 0) :
    t.Ok n valid where
  zero := hused 0
  keys := fun i k _ hk => absurd hk (by simp [hused i])
  index_iff := by
    intro k _ i
    rw [hindex k, hused i]
    constructor
    · rintro ⟨hne, heq⟩
      exact absurd heq.symm hne
    · rintro ⟨-, hk⟩
      exact absurd hk (by simp)
  count_eq := by
    rw [hcount, usedCount]
    simp [hused]

end RalinkSdk.Lib
