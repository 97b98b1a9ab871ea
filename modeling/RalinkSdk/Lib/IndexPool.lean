import Mathlib.Data.List.Nodup

/-!
# Pools of indices

Nodes in a list carry an index each, and marks say which indices are taken.  List and marks are
kept apart; `IndexPool` says that they agree.
-/

namespace RalinkSdk.Lib

open List

universe u

variable {ν : Type u}

/-- The indices of the nodes are distinct and below `cap`, and an index is marked exactly when a
    node carries it. -/
structure IndexPool (cap : Nat) (index : ν → Nat) (marked : Nat → Prop) (l : List ν) : Prop where
  nodup : (l.map index).Nodup
  lt : ∀ x ∈ l, index x < cap
  marked_iff : ∀ i, i < cap → (marked i ↔ ∃ x ∈ l, index x = i)

namespace IndexPool

variable {cap : Nat} {index : ν → Nat} {marked marked' : Nat → Prop} {l m : List ν} {x : ν}

theorem nil (hfree : ∀ i, i < cap → ¬ marked i) : IndexPool cap index marked [] where
  nodup := nodup_nil
  lt := by simp
  marked_iff := by
    intro i hi
    simp [hfree i hi]

/-- **Taking an index** that is not marked. -/
theorem append (h : IndexPool cap index marked l) (hlt : index x < cap) (hfree : ¬ marked (index x))
    (hmark : ∀ i, i < cap → (marked' i ↔ i = index x ∨ marked i)) :
    IndexPool cap index marked' (l ++ [x]) where
  nodup := by
    rw [map_append, map_singleton, nodup_append]
    refine ⟨h.nodup, nodup_singleton _, ?_⟩
    intro i hi j hj
    obtain rfl := mem_singleton.mp hj
    rintro rfl
    exact hfree ((h.marked_iff _ hlt).mpr (mem_map.mp hi))
  lt := by
    intro y hy
    rcases mem_append.mp hy with hy | hy
    · exact h.lt y hy
    · exact mem_singleton.mp hy ▸ hlt
  marked_iff := by
    intro i hi
    rw [hmark i hi, h.marked_iff i hi]
    constructor
    · rintro (rfl | ⟨y, hy, rfl⟩)
      · exact ⟨x, by simp, rfl⟩
      · exact ⟨y, by simp [hy], rfl⟩
    · rintro ⟨y, hy, rfl⟩
      rcases mem_append.mp hy with hy | hy
      · exact .inr ⟨y, hy, rfl⟩
      · exact .inl (by rw [mem_singleton.mp hy])

/-- **Giving an index back**: no other node carries it. -/
theorem erase (h : IndexPool cap index marked (l ++ x :: m))
    (hmark : ∀ i, i < cap → (marked' i ↔ i ≠ index x ∧ marked i)) :
    IndexPool cap index marked' (l ++ m) := by
  have hmid := h.nodup
  rw [map_append, map_cons] at hmid
  have hout := nodup_middle.mp hmid
  rw [nodup_cons, ← map_append] at hout
  refine ⟨hout.2, ?_, ?_⟩
  · intro y hy
    exact h.lt y (by simp at hy ⊢; tauto)
  · intro i hi
    rw [hmark i hi, h.marked_iff i hi]
    constructor
    · rintro ⟨hne, y, hy, rfl⟩
      have hyx : y ≠ x := fun heq => hne (by rw [heq])
      exact ⟨y, by simp at hy ⊢; tauto, rfl⟩
    · rintro ⟨y, hy, rfl⟩
      refine ⟨fun heq => hout.1 (heq ▸ mem_map_of_mem hy), y, ?_, rfl⟩
      simp at hy ⊢
      tauto

theorem of_map_eq (h : IndexPool cap index marked l) (hmap : m.map index = l.map index) :
    IndexPool cap index marked m := by
  have hmem : ∀ i, (∃ y ∈ m, index y = i) ↔ ∃ y ∈ l, index y = i := by
    intro i
    rw [← mem_map, ← mem_map, hmap]
  refine ⟨hmap ▸ h.nodup, ?_, ?_⟩
  · intro y hy
    obtain ⟨z, hz, heq⟩ := (hmem (index y)).mp ⟨y, hy, rfl⟩
    exact heq ▸ h.lt z hz
  · intro i hi
    rw [hmem i]
    exact h.marked_iff i hi

end IndexPool

end RalinkSdk.Lib
