import Mathlib.Data.List.Perm.Basic

/-!
# Taking one entry out of a list

`eraseP` takes out the first entry with a property.  Whether it takes out an entry of the kind that
was meant depends on that first entry only.
-/

namespace RalinkSdk.Lib

open List

variable {α : Type}

/-- At most one entry is missing from the second list, and it is as required. -/
def RemovesOnly (P : α → Prop) (l l' : List α) : Prop :=
  l' = l ∨ ∃ before x after, l = before ++ x :: after ∧ l' = before ++ after ∧ P x

theorem eraseP_cases (p : α → Bool) (l : List α) : (l.find? p = none ∧ l.eraseP p = l) ∨
    ∃ before x after, l.find? p = some x ∧ l = before ++ x :: after ∧
      l.eraseP p = before ++ after := by
  cases hfind : l.find? p with
  | none => exact .inl ⟨rfl, eraseP_of_forall_not (by simpa using hfind)⟩
  | some x =>
    obtain ⟨hx, before, after, hlist, hbefore⟩ := find?_eq_some_iff_append.mp hfind
    refine .inr ⟨before, x, after, rfl, hlist, ?_⟩
    rw [hlist, eraseP_append_right _ (by simpa using hbefore), eraseP_cons_of_pos hx]

theorem eq_of_remove {before after before' after' : List α} {x y : α}
    (hlist : before ++ x :: after = before' ++ y :: after')
    (hrest : before ++ after = before' ++ after') : x = y := by
  classical
  have hx : (before ++ x :: after).Perm (x :: (before ++ after)) := perm_middle
  have hy : (before' ++ y :: after').Perm (y :: (before' ++ after')) := perm_middle
  rw [hlist, hrest] at hx
  have hperm := hx.symm.trans hy
  by_contra hne
  have hcount := hperm.count_eq x
  rw [count_cons_self, count_cons_of_ne (Ne.symm hne)] at hcount
  exact absurd hcount (Nat.succ_ne_self _)

/-- **`eraseP` takes out what was meant** if and only if the first entry that it finds is that. -/
theorem removesOnly_eraseP_iff (P : α → Prop) (p : α → Bool) (l : List α) :
    RemovesOnly P l (l.eraseP p) ↔ ∀ x, l.find? p = some x → P x := by
  obtain ⟨hnone, heq⟩ | ⟨before, x, after, hfind, hlist, heq⟩ := eraseP_cases p l
  · refine iff_of_true (.inl heq) fun x hx => ?_
    rw [hnone] at hx
    cases hx
  · constructor
    · rintro (hsame | ⟨before', x', after', hlist', heq', hx'⟩) y hy
      · -- an entry is missing
        rw [heq, hlist] at hsame
        have hlength := congrArg List.length hsame
        simp at hlength
      · rw [hfind] at hy
        cases hy
        rw [eq_of_remove (hlist.symm.trans hlist') (heq.symm.trans heq')]
        exact hx'
    · intro h
      exact .inr ⟨before, x, after, hlist, heq, h x hfind⟩

theorem eraseP_append_eq_iff {p : α → Bool} {l : List α} {x : α} (hx : p x = true) (hnew : x ∉ l) :
    (l ++ [x]).eraseP p = l ↔ ∀ y ∈ l, p y = false := by
  constructor
  · intro h y hy
    by_contra hne
    have hpy : p y = true := by simpa using hne
    -- the new entry is left, and it is none of the old ones
    rw [eraseP_append_left hpy _ hy] at h
    exact hnew (h ▸ mem_append_right _ (mem_singleton_self x))
  · intro h
    rw [eraseP_append_right _ (by simpa using h), eraseP_cons_of_pos hx, append_nil]

end RalinkSdk.Lib
