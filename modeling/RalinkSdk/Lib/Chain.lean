import Mathlib.Data.List.Basic
import Mathlib.Logic.Function.Basic

/-!
# Chains of links

Nodes of a type `ι` that are linked in memory: `next i` is the link stored in node
`i`, and `none` is the null link.  `Seg next p l q` says that the links lead from `p`
through the nodes `l`, in order, to `q`; `Chain next p l` that they end in null after `l`.

## Main results

- `Seg.congr`: links outside a segment do not matter.
-/

namespace RalinkSdk.Lib

open List Function

universe u

variable {ι : Type u} {next next' : ι → Option ι} {p q : Option ι} {l m : List ι}

/-- The links lead from `p` through the nodes `l` to `q`. -/
def Seg (next : ι → Option ι) : Option ι → List ι → Option ι → Prop
  | p, [], q => p = q
  | p, i :: l, q => p = some i ∧ Seg next (next i) l q

/-- The links lead from `p` through the nodes `l` and end there. -/
def Chain (next : ι → Option ι) (p : Option ι) (l : List ι) : Prop :=
  Seg next p l none

@[simp] theorem seg_nil : Seg next p [] q ↔ p = q := Iff.rfl

@[simp] theorem seg_cons {i : ι} :
    Seg next p (i :: l) q ↔ p = some i ∧ Seg next (next i) l q := Iff.rfl

@[simp] theorem chain_nil : Chain next p [] ↔ p = none := Iff.rfl

@[simp] theorem chain_cons {i : ι} :
    Chain next p (i :: l) ↔ p = some i ∧ Chain next (next i) l := Iff.rfl

theorem Seg.congr (h : Seg next p l q) (heq : ∀ i ∈ l, next' i = next i) : Seg next' p l q := by
  induction l generalizing p with
  | nil => exact h
  | cons i l ih =>
    refine ⟨h.1, ?_⟩
    rw [heq i mem_cons_self]
    exact ih h.2 fun j hj => heq j (mem_cons_of_mem i hj)

theorem Chain.congr (h : Chain next p l) (heq : ∀ i ∈ l, next' i = next i) : Chain next' p l :=
  Seg.congr h heq

theorem seg_append : Seg next p (l ++ m) q ↔ ∃ r, Seg next p l r ∧ Seg next r m q := by
  induction l generalizing p with
  | nil => simp
  | cons i l ih => simp [ih, and_assoc]

theorem chain_append : Chain next p (l ++ m) ↔ ∃ r, Seg next p l r ∧ Chain next r m :=
  seg_append

theorem Chain.head (h : Chain next p l) : p = l.head? := by
  cases l with
  | nil => exact h
  | cons i l => exact h.1

theorem Chain.unique (h : Chain next p l) (h' : Chain next p m) : l = m := by
  induction l generalizing p m with
  | nil =>
    have hp : p = none := h
    rw [hp] at h'
    cases m with
    | nil => rfl
    | cons j m => exact absurd h'.1 (by simp)
  | cons i l ih =>
    rw [h.1] at h'
    cases m with
    | nil => exact absurd (show some i = none from h') (by simp)
    | cons j m =>
      obtain rfl : i = j := Option.some.inj h'.1
      rw [ih h.2 h'.2]

section

variable [DecidableEq ι] {a b i : ι}

theorem Chain.update_of_not_mem (h : Chain next p l) (hi : i ∉ l) (r : Option ι) :
    Chain (update next i r) p l := by
  apply h.congr
  intro j hj
  have hne : j ≠ i := ne_of_mem_of_not_mem hj hi
  simp [hne]

theorem Seg.relink (h : Seg next p (l ++ [a]) q) (ha : a ∉ l) (r : Option ι) :
    Seg (update next a r) p (l ++ [a]) r := by
  obtain ⟨x, hl, hx⟩ := seg_append.mp h
  have hcut : Seg (update next a r) p l x := by
    apply hl.congr
    intro j hj
    have hne : j ≠ a := ne_of_mem_of_not_mem hj ha
    simp [hne]
  apply seg_append.mpr
  refine ⟨x, hcut, hx.1, ?_⟩
  simp

/-- **Unlinking**: the predecessor takes over the link of the node that leaves. -/
theorem Chain.unlink (h : Chain next p (l ++ a :: b :: m)) (hnd : (l ++ a :: b :: m).Nodup) :
    Chain (update next a (next b)) p (l ++ a :: m) := by
  -- the chain up to `a`, the node `b`, and the rest
  have hsplit : l ++ a :: b :: m = (l ++ [a]) ++ b :: m := by simp
  rw [hsplit] at h hnd
  obtain ⟨x, hla, hbm⟩ := chain_append.mp h
  have hdisj := nodup_append.mp hnd
  have hal : a ∉ l := by
    have hla := hdisj.1
    simp only [nodup_append, mem_singleton] at hla
    intro hmem
    exact hla.2.2 a hmem a rfl rfl
  have ham : a ∉ m := by
    intro hmem
    exact hdisj.2.2 a (by simp) a (mem_cons_of_mem b hmem) rfl
  -- the link of `a` is not among those of the rest
  have hrest : Chain (update next a (next b)) (next b) m :=
    Chain.update_of_not_mem hbm.2 ham (next b)
  have hjoin := chain_append.mpr ⟨next b, hla.relink hal (next b), hrest⟩
  simpa using hjoin

/-- **Linking**: a node outside the chain goes behind its last node. -/
theorem Chain.append (h : Chain next p (l ++ [a])) (hnd : (l ++ [a]).Nodup)
    (hi : i ∉ l ++ [a]) (hnull : next i = none) :
    Chain (update next a (some i)) p (l ++ [a] ++ [i]) := by
  have hal : a ∉ l := by
    simp only [nodup_append, mem_singleton] at hnd
    intro hmem
    exact hnd.2.2 a hmem a rfl rfl
  have hia : i ≠ a := fun heq => hi (by simp [heq])
  apply chain_append.mpr
  refine ⟨some i, Seg.relink h hal (some i), rfl, ?_⟩
  rw [update_of_ne hia]
  exact hnull

end

end RalinkSdk.Lib
