import Mathlib

/-!
# Lists in a text

A text stands for the list of its items, which a delimiter separates: `List.splitOn` takes the
items apart and `List.intercalate` joins them again.  An empty text is one empty item, so that
every text has an item.

## Main results

- `splitOn_cut`: the items are the text up to the first delimiter and the items behind it.
-/

namespace RalinkSdk.Lib

open List

universe u

variable {α : Type u}

/-! ## Taking apart -/

section

variable [DecidableEq α] (d : α)

theorem splitOn_cons_self (s : List α) : (d :: s).splitOn d = [] :: s.splitOn d := by
  simpa using splitOn_append_cons_self [] s (a := d)

theorem splitOn_cut (s : List α) :
    s.splitOn d =
      match s.dropWhile (· ≠ d) with
      | [] => [s]
      | _ :: rest => s.takeWhile (· ≠ d) :: rest.splitOn d := by
  have hfront : d ∉ s.takeWhile (· ≠ d) := by
    intro hmem
    simpa using mem_takeWhile_imp hmem
  have hsplit := takeWhile_append_dropWhile (p := (· ≠ d)) (l := s)
  cases hdrop : s.dropWhile (· ≠ d) with
  | nil =>
    have hs : s.takeWhile (· ≠ d) = s := by
      rw [hdrop, append_nil] at hsplit
      exact hsplit
    exact splitOn_eq_singleton (hs ▸ hfront)
  | cons c rest =>
    have hc : c = d := by
      have hhead := head?_dropWhile_not (p := (· ≠ d)) (l := s)
      rw [hdrop] at hhead
      simpa using hhead
    rw [hdrop, hc] at hsplit
    conv_lhs => rw [← hsplit]
    exact splitOn_append_cons_self_of_not_mem hfront rest

theorem length_splitOn (s : List α) : (s.splitOn d).length = s.count d + 1 := by
  induction s with
  | nil => rfl
  | cons c s ih =>
    by_cases hc : c = d
    · subst hc
      rw [splitOn_cons_self, length_cons, ih, count_cons_self]
    · rw [splitOn_cons_eq_if_modifyHead, if_neg (by simpa using hc), length_modifyHead, ih,
        count_cons_of_ne hc]

theorem not_mem_of_mem_splitOn {s item : List α} (h : item ∈ s.splitOn d) : d ∉ item := by
  induction s generalizing item with
  | nil =>
    rw [splitOn_nil, mem_singleton] at h
    subst h
    exact not_mem_nil
  | cons c s ih =>
    by_cases hc : c = d
    · subst hc
      rw [splitOn_cons_self, mem_cons] at h
      rcases h with rfl | h
      · exact not_mem_nil
      · exact ih h
    · rw [splitOn_cons_eq_if_modifyHead, if_neg (by simpa using hc)] at h
      cases hs : s.splitOn d with
      | nil => exact absurd hs (splitOn_ne_nil d s)
      | cons x xs =>
        rw [hs, modifyHead_cons, mem_cons] at h
        rcases h with rfl | h
        · have hx := ih (hs ▸ mem_cons_self)
          rw [mem_cons, not_or]
          exact ⟨fun heq => hc heq.symm, hx⟩
        · exact ih (hs ▸ mem_cons_of_mem x h)

theorem splitOn_eq_singleton_nil {s : List α} : s.splitOn d = [[]] ↔ s = [] := by
  constructor
  · intro h
    have hjoin : [d].intercalate (s.splitOn d) = s := intercalate_splitOn d
    rw [h] at hjoin
    simpa using hjoin.symm
  · rintro rfl
    rfl

theorem splitOn_take {s : List α} {k i : Nat} {x : List α} (h : ((s.take k).splitOn d)[i]? = some x) :
    ∃ y, (s.splitOn d)[i]? = some y ∧ x <+: y := by
  induction s generalizing k i x with
  | nil =>
    rw [take_nil] at h
    exact ⟨x, h, prefix_refl x⟩
  | cons c s ih =>
    cases k with
    | zero =>
      -- all that is left is one empty item
      rw [take_zero, splitOn_nil, getElem?_singleton] at h
      split_ifs at h with hi
      obtain ⟨y, ys, hys⟩ := exists_cons_of_ne_nil (splitOn_ne_nil d (c :: s))
      rw [← Option.some.inj h, hi, hys]
      exact ⟨y, rfl, nil_prefix⟩
    | succ k =>
      rw [take_succ_cons] at h
      by_cases hc : c = d
      · subst hc
        rw [splitOn_cons_self] at h ⊢
        cases i with
        | zero => exact ⟨x, h, prefix_refl x⟩
        | succ i => exact ih h
      · rw [splitOn_cons_eq_if_modifyHead, if_neg (by simpa using hc)] at h ⊢
        obtain ⟨z, zs, hzs⟩ := exists_cons_of_ne_nil (splitOn_ne_nil d (s.take k))
        obtain ⟨y, ys, hys⟩ := exists_cons_of_ne_nil (splitOn_ne_nil d s)
        rw [hzs, modifyHead_cons] at h
        rw [hys, modifyHead_cons]
        cases i with
        | zero =>
          have hhead : ((s.take k).splitOn d)[0]? = some z := by rw [hzs]; rfl
          obtain ⟨y', hy', hpre⟩ := ih hhead
          rw [hys] at hy'
          obtain rfl := Option.some.inj hy'
          rw [← Option.some.inj h]
          exact ⟨c :: y, rfl, (prefix_cons_inj c).mpr hpre⟩
        | succ i =>
          have htail : ((s.take k).splitOn d)[i + 1]? = some x := by rw [hzs]; exact h
          obtain ⟨y', hy', hpre⟩ := ih htail
          rw [hys] at hy'
          exact ⟨y', hy', hpre⟩

end

/-! ## Joining -/

theorem intercalate_cons (d : α) (x : List α) (xs : List (List α)) :
    [d].intercalate (x :: xs) = x ++ xs.flatMap (d :: ·) := by
  induction xs generalizing x with
  | nil => simp
  | cons y ys ih => rw [intercalate_cons_cons, ih, flatMap_cons]; simp

variable {items : List (List α)}

theorem mem_of_mem_intercalate {d c : α} (h : c ∈ [d].intercalate items) :
    c = d ∨ ∃ item ∈ items, c ∈ item := by
  cases items with
  | nil => cases h
  | cons x xs =>
    rw [intercalate_cons, mem_append, mem_flatMap] at h
    rcases h with hx | ⟨item, hitem, hc⟩
    · exact .inr ⟨x, mem_cons_self, hx⟩
    · rcases mem_cons.mp hc with rfl | hc
      · exact .inl rfl
      · exact .inr ⟨item, mem_cons_of_mem x hitem, hc⟩

theorem length_intercalate (d : α) (h : items ≠ []) :
    ([d].intercalate items).length + 1 = (items.map (·.length + 1)).sum := by
  cases items with
  | nil => exact absurd rfl h
  | cons x xs =>
    rw [intercalate_cons, length_append, length_flatMap, map_cons, sum_cons]
    simp only [length_cons]
    omega

theorem sum_length_add_le {A E : List (List α)} (h : A.Sublist E) :
    (A.map (·.length + 1)).sum + (E.length - A.length) ≤ (E.map (·.length + 1)).sum := by
  induction h with
  | slnil => exact Nat.le_refl 0
  | @cons A E x h ih =>
    have hlen := h.length_le
    rw [map_cons, sum_cons, length_cons]
    omega
  | @cons_cons A E x h ih =>
    rw [map_cons, map_cons, sum_cons, sum_cons, length_cons, length_cons]
    omega

theorem intercalate_eq_nil (d : α) : [d].intercalate items = [] ↔ items = [] ∨ items = [[]] := by
  cases items with
  | nil => simp
  | cons x xs =>
    rw [intercalate_cons, append_eq_nil_iff]
    cases xs <;> simp

theorem intercalate_eq_of_sublist (d : α) {A E : List (List α)} (hsub : A.Sublist E) (hne : A ≠ E) :
    [d].intercalate A = [d].intercalate E ↔ A = [] ∧ E = [[]] := by
  have hlt : A.length < E.length := by
    apply lt_of_le_of_ne hsub.length_le
    intro hlen
    exact hne (hsub.eq_of_length hlen)
  constructor
  · intro h
    have hE : E ≠ [] := by
      rintro rfl
      simp at hlt
    have hA : A = [] := by
      by_contra hA
      have h₁ := length_intercalate d hA
      have h₂ := length_intercalate d hE
      have h₃ := sum_length_add_le hsub
      rw [h] at h₁
      omega
    refine ⟨hA, ?_⟩
    rw [hA, intercalate_nil] at h
    exact ((intercalate_eq_nil d).mp h.symm).resolve_left hE
  · rintro ⟨rfl, rfl⟩
    simp

theorem length_le_of_mem_splitOn [DecidableEq α] {d : α} {s item : List α} (h : item ∈ s.splitOn d) :
    item.length ≤ s.length := by
  have hjoin := length_intercalate d (splitOn_ne_nil d s)
  rw [intercalate_splitOn] at hjoin
  have hmem : item.length + 1 ∈ (s.splitOn d).map (·.length + 1) := mem_map_of_mem h
  have hle := single_le_sum (fun x _ => Nat.zero_le x) _ hmem
  omega

/-! ## Leaving items out -/

section

variable {β : Type u} (gone : Nat → Prop) [DecidablePred gone]

/-- The items of a list whose first one has position `i`, without those at the positions in
    `gone`. -/
def keepFrom : Nat → List β → List β
  | _, [] => []
  | i, x :: xs => if gone i then keepFrom (i + 1) xs else x :: keepFrom (i + 1) xs

variable {gone' : Nat → Prop} {xs : List β}

theorem keepFrom_congr [DecidablePred gone'] {i : Nat}
    (h : ∀ p, i ≤ p → p < i + xs.length → (gone p ↔ gone' p)) :
    keepFrom gone i xs = keepFrom gone' i xs := by
  induction xs generalizing i with
  | nil => rfl
  | cons x xs ih =>
    have hi : gone i ↔ gone' i := h i le_rfl (by simp)
    have hrest : keepFrom gone (i + 1) xs = keepFrom gone' (i + 1) xs :=
      ih fun p hp hlt => h p (Nat.le_of_succ_le hp) (by rw [length_cons]; omega)
    simp only [keepFrom, hi, hrest]

theorem keepFrom_eq_self {i : Nat} (h : ∀ p, i ≤ p → p < i + xs.length → ¬ gone p) :
    keepFrom gone i xs = xs := by
  induction xs generalizing i with
  | nil => rfl
  | cons x xs ih =>
    have hi : ¬ gone i := h i le_rfl (by simp)
    have hrest : keepFrom gone (i + 1) xs = xs :=
      ih fun p hp hlt => h p (by omega) (by rw [length_cons]; omega)
    rw [keepFrom, if_neg hi, hrest]

theorem keepFrom_sublist [DecidablePred gone'] (h : ∀ p, gone p → gone' p)
    (i : Nat) (xs : List β) : (keepFrom gone' i xs).Sublist (keepFrom gone i xs) := by
  induction xs generalizing i with
  | nil => exact List.Sublist.refl []
  | cons x xs ih =>
    rw [keepFrom, keepFrom]
    split_ifs with h₁ h₂
    · exact ih (i + 1)
    · exact (ih (i + 1)).cons x
    · exact absurd (h i ‹_›) h₁
    · exact (ih (i + 1)).cons_cons x

theorem keepFrom_ne [DecidablePred gone'] (h : ∀ p, gone p → gone' p)
    {i p : Nat} (hge : i ≤ p) (hlt : p < i + xs.length) (hp : gone' p)
    (hnot : ¬ gone p) : keepFrom gone' i xs ≠ keepFrom gone i xs := by
  induction xs generalizing i with
  | nil =>
    simp at hlt
    omega
  | cons x xs ih =>
    rw [length_cons] at hlt
    rcases Nat.eq_or_lt_of_le hge with rfl | hgt
    · intro heq
      have hlen := (keepFrom_sublist gone h (i + 1) xs).length_le
      rw [keepFrom, keepFrom, if_pos hp, if_neg hnot] at heq
      rw [heq, length_cons] at hlen
      omega
    · have hrest := ih hgt (by omega)
      rw [keepFrom, keepFrom]
      split_ifs with h₁ h₂
      · exact hrest
      · intro heq
        have hlen := (keepFrom_sublist gone h (i + 1) xs).length_le
        rw [heq, length_cons] at hlen
        omega
      · exact absurd (h i ‹_›) h₁
      · intro heq
        exact hrest (List.cons.inj heq).2

theorem keepFrom_eq_nil {i : Nat} :
    keepFrom gone i xs = [] ↔ ∀ p, i ≤ p → p < i + xs.length → gone p := by
  induction xs generalizing i with
  | nil =>
    constructor
    · intro _ p h₁ h₂
      simp at h₂
      omega
    · intro _
      rfl
  | cons x xs ih =>
    rw [keepFrom]
    split_ifs with hi
    · rw [ih]
      constructor
      · intro h p h₁ h₂
        rcases Nat.eq_or_lt_of_le h₁ with rfl | hlt
        · exact hi
        · exact h p hlt (by rw [length_cons] at h₂; omega)
      · intro h p h₁ h₂
        exact h p (by omega) (by rw [length_cons]; omega)
    · constructor
      · intro h
        cases h
      · intro h
        exact absurd (h i le_rfl (by simp)) hi

end

end RalinkSdk.Lib
