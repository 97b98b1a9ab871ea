import Mathlib.Data.List.TakeWhile
import Mathlib.Data.List.Chain

/-!
# Circular numbers and windows

Numbers below `n` on a circle.  `circDist n a b` is the way from `a` forward to
`b`.  A list is `Windowed` over a base when its keys lie in the window of width `w`
behind the base and increase along the circle.

## Main results

- `circDist_add`, `circDist_sub`: distances add up as long as they do not go round.
- `circTravel_ne`: a chain of steps that does not go round never comes back.
- `Windowed.length_le`: a window of width `w` holds at most `w` keys.
-/

namespace RalinkSdk.Lib

open List Nat

universe u

/-- The way from `a` forward to `b` on a circle of `n` numbers. -/
def circDist (n a b : Nat) : Nat := if a ≤ b then b - a else b + n - a

section

variable {n a b c : Nat}

@[simp] theorem circDist_self (n a : Nat) : circDist n a a = 0 := by
  simp [circDist]

theorem circDist_lt (hb : b < n) : circDist n a b < n := by
  unfold circDist
  split <;> omega

theorem circDist_eq_zero (ha : a < n) (h : circDist n a b = 0) : a = b := by
  unfold circDist at h
  split at h <;> omega

theorem circDist_inj (ha : a < n) (hb : b < n) (hc : c < n)
    (h : circDist n a b = circDist n a c) : b = c := by
  unfold circDist at h
  split at h <;> split at h <;> omega

theorem circDist_add (ha : a < n) (hb : b < n) (h : circDist n a b + circDist n b c < n) :
    circDist n a c = circDist n a b + circDist n b c := by
  unfold circDist at h ⊢
  split at h <;> split at h <;> split <;> omega

theorem circDist_sub (ha : a < n) (hb : b < n) (hc : c < n) (h : circDist n a b ≤ circDist n a c) :
    circDist n b c = circDist n a c - circDist n a b := by
  unfold circDist at h ⊢
  split at h <;> split at h <;> split <;> omega

theorem circDist_back (ha : a < n) (hb : b < n) (h : circDist n a c < circDist n a b) :
    circDist n b c = n + circDist n a c - circDist n a b := by
  unfold circDist at h ⊢
  split at h <;> split at h <;> split <;> omega

theorem circDist_step (ha : a < n) {k : Nat} (hk : k < n) : circDist n a ((a + k) % n) = k := by
  rcases Nat.lt_or_ge (a + k) n with h | h
  · rw [mod_eq_of_lt h, circDist, if_pos (by omega)]
    omega
  · rw [mod_eq_sub_mod h, mod_eq_of_lt (by omega), circDist, if_neg (by omega)]
    omega

/-- The way along a list of stops. -/
def circTravel (n : Nat) : List Nat → Nat
  | a :: b :: l => circDist n a b + circTravel n (b :: l)
  | _ => 0

theorem circDist_travel {l : List Nat} (hl : ∀ x ∈ a :: l, x < n)
    (h : circTravel n (a :: l ++ [b]) < n) : circDist n a b = circTravel n (a :: l ++ [b]) := by
  induction l generalizing a with
  | nil => simp [circTravel]
  | cons c l ih =>
    obtain ⟨ha, hl⟩ := forall_mem_cons.mp hl
    have hc := hl c (mem_cons_self ..)
    have hsplit : circTravel n (a :: (c :: l) ++ [b]) =
        circDist n a c + circTravel n (c :: l ++ [b]) := rfl
    rw [hsplit] at h ⊢
    have hrest := ih hl (by omega)
    rw [← hrest] at h ⊢
    exact circDist_add ha hc h

theorem circTravel_ne {l : List Nat} (hl : ∀ x ∈ a :: l, x < n)
    (hstep : (a :: l ++ [b]).IsChain fun x y => 1 ≤ circDist n x y)
    (h : circTravel n (a :: l ++ [b]) < n) : a ≠ b := by
  intro hab
  have hdist := circDist_travel hl h
  rw [hab, circDist_self] at hdist
  -- the first step alone is at least one
  cases l with
  | nil =>
    have h1 := (isChain_cons_cons.mp hstep).1
    rw [hab, circDist_self] at h1
    omega
  | cons c l =>
    have h1 := (isChain_cons_cons.mp hstep).1
    have hsplit : circTravel n (b :: (c :: l) ++ [b]) =
        circDist n b c + circTravel n (c :: l ++ [b]) := rfl
    rw [hsplit] at hdist
    rw [hab] at h1
    omega

end

/-! ## Windowed lists -/

section

variable {α : Type u} {n : Nat} {key : α → Nat} {base w : Nat} {l : List α}

/-- The keys of `l` lie in the window of width `w` behind `base`, in strictly
    increasing order along the circle. -/
structure Windowed (n : Nat) (key : α → Nat) (base w : Nat) (l : List α) : Prop where
  key_lt : ∀ x ∈ l, key x < n
  ahead : ∀ x ∈ l, 1 ≤ circDist n base (key x)
  within : ∀ x ∈ l, circDist n base (key x) ≤ w
  sorted : l.Pairwise fun x y => circDist n base (key x) < circDist n base (key y)

theorem Windowed.nil : Windowed n key base w [] := by
  constructor <;> simp

theorem Windowed.cons {x : α} (h : Windowed n key base w l) (hkey : key x < n)
    (h1 : 1 ≤ circDist n base (key x)) (h2 : circDist n base (key x) ≤ w)
    (hlt : ∀ y ∈ l, circDist n base (key x) < circDist n base (key y)) :
    Windowed n key base w (x :: l) where
  key_lt := forall_mem_cons.mpr ⟨hkey, h.key_lt⟩
  ahead := forall_mem_cons.mpr ⟨h1, h.ahead⟩
  within := forall_mem_cons.mpr ⟨h2, h.within⟩
  sorted := pairwise_cons.mpr ⟨hlt, h.sorted⟩

theorem Windowed.sublist {l' : List α} (h : Windowed n key base w l) (hs : l'.Sublist l) :
    Windowed n key base w l' where
  key_lt := fun x hx => h.key_lt x (hs.subset hx)
  ahead := fun x hx => h.ahead x (hs.subset hx)
  within := fun x hx => h.within x (hs.subset hx)
  sorted := h.sorted.sublist hs

theorem length_le_of_sorted {f : α → Nat} {k : Nat}
    (hlow : ∀ x ∈ l, k < f x) (hhigh : ∀ x ∈ l, f x ≤ w)
    (hsorted : l.Pairwise fun x y => f x < f y) : l.length ≤ w - k := by
  induction l generalizing k with
  | nil => exact Nat.zero_le _
  | cons x l ih =>
    rw [pairwise_cons] at hsorted
    have hx := hlow x (mem_cons_self ..)
    have hxw := hhigh x (mem_cons_self ..)
    -- the tail starts behind `f x`, which is one further than `k`
    have htail := ih (fun y hy => hsorted.1 y hy)
      (fun y hy => hhigh y (mem_cons_of_mem _ hy)) hsorted.2
    rw [length_cons]
    omega

theorem Windowed.length_le (h : Windowed n key base w l) : l.length ≤ w := by
  have hlow : ∀ x ∈ l, 0 < circDist n base (key x) := h.ahead
  simpa using length_le_of_sorted hlow h.within h.sorted

theorem Windowed.nodup (h : Windowed n key base w l) : (l.map key).Nodup := by
  rw [List.Nodup, pairwise_map]
  refine h.sorted.imp ?_
  intro x y hxy heq
  rw [heq] at hxy
  exact absurd hxy (Nat.lt_irrefl _)

/-- **Rebase**: the base may move forward to any number that no key of the list is
    at or behind. -/
theorem Windowed.rebase {base' : Nat} (h : Windowed n key base w l) (hb : base < n)
    (hb' : base' < n) (hfar : ∀ x ∈ l, circDist n base base' < circDist n base (key x)) :
    Windowed n key base' w l := by
  -- all distances shrink by the same amount
  have hdist : ∀ x ∈ l, circDist n base' (key x) =
      circDist n base (key x) - circDist n base base' := fun x hx =>
    circDist_sub hb hb' (h.key_lt x hx) (Nat.le_of_lt (hfar x hx))
  constructor
  · exact h.key_lt
  · intro x hx
    have := hfar x hx
    rw [hdist x hx]
    omega
  · intro x hx
    have := h.within x hx
    rw [hdist x hx]
    omega
  · refine h.sorted.imp_of_mem ?_
    intro x y hx hy hxy
    have := hfar x hx
    rw [hdist x hx, hdist y hy]
    omega

theorem Windowed.takeWhile_le (h : Windowed n key base w l) (d : Nat) :
    (∀ x ∈ l.takeWhile (fun x => decide (circDist n base (key x) ≤ d)),
        circDist n base (key x) ≤ d) ∧
      ∀ x ∈ l.dropWhile (fun x => decide (circDist n base (key x) ≤ d)),
        d < circDist n base (key x) := by
  refine ⟨fun x hx => by simpa using mem_takeWhile_imp hx, ?_⟩
  have hs := h.sorted
  clear h
  induction l with
  | nil => simp
  | cons y l ih =>
    rw [pairwise_cons] at hs
    by_cases hy : circDist n base (key y) ≤ d
    · simpa [dropWhile_cons, hy] using ih hs.2
    · -- the first entry is already too far, and the others are behind it
      intro x hx
      simp only [dropWhile_cons, hy, decide_false, Bool.false_eq_true, if_false, mem_cons] at hx
      rcases hx with rfl | hx
      · omega
      · have := hs.1 x hx
        omega

end

end RalinkSdk.Lib
