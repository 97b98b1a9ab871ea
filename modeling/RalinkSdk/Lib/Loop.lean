import Mathlib

/-!
# Loops that may not end

A loop is a function `pass : σ → Option σ` from the state before a pass to the state after it, with
`none` where the loop is left.  What it does is `StateTransition.eval`, which has a value exactly if
the loop is left after finitely many passes.

## Main results

- `not_dom_of_fixed`: nor does one that gets to a state which its pass leaves as it is.
-/

namespace RalinkSdk.Lib

open StateTransition Relation

universe u

variable {σ : Type u} {pass : σ → Option σ}

theorem eval_dom_iff {s : σ} : (eval pass s).Dom ↔ ∃ t, Reaches pass s t ∧ pass t = none := by
  rw [Part.dom_iff_mem]
  exact exists_congr fun t => mem_eval

theorem reaches_next {s t : σ} (h : pass s = some t) : Reaches pass s t :=
  ReflTransGen.single h

/-- **End**: every pass from a state the loop gets to makes the measure smaller. -/
theorem eval_dom_of_measure (μ : σ → Nat) {s : σ}
    (hless : ∀ t, Reaches pass s t → ∀ t', pass t = some t' → μ t' < μ t) : (eval pass s).Dom := by
  induction hμ : μ s using Nat.strong_induction_on generalizing s with
  | _ n ih =>
    cases hpass : pass s with
    | none => exact eval_dom_iff.mpr ⟨s, ReflTransGen.refl, hpass⟩
    | some t =>
      have hst := reaches_next hpass
      have hlt : μ t < n := hμ ▸ hless s ReflTransGen.refl t hpass
      rw [reaches_eval hst]
      exact ih (μ t) hlt (fun u hu => hless u (ReflTransGen.trans hst hu)) rfl

section

variable {P : σ → Prop}

theorem reaches_invariant (hstep : ∀ s t, P s → pass s = some t → P t) {s t : σ}
    (h : Reaches pass s t) (hs : P s) : P t := by
  induction h with
  | refl => exact hs
  | tail _ hpass ih => exact hstep _ _ ih hpass

theorem eval_dom_of_invariant (μ : σ → Nat)
    (hstep : ∀ s t, P s → pass s = some t → P t ∧ μ t < μ s) {s : σ} (hs : P s) :
    (eval pass s).Dom := by
  apply eval_dom_of_measure μ
  intro t hreach t' hpass
  have ht : P t := reaches_invariant (fun u v hu huv => (hstep u v hu huv).1) hreach hs
  exact (hstep t t' ht hpass).2

/-- **No end**: with the invariant there is always one more pass. -/
theorem not_dom_of_invariant (hstep : ∀ s, P s → ∃ t, pass s = some t ∧ P t) {s : σ} (hs : P s) :
    ¬ (eval pass s).Dom := by
  rw [eval_dom_iff]
  rintro ⟨t, hreach, hend⟩
  have ht : P t := by
    refine reaches_invariant (fun u v hu huv => ?_) hreach hs
    obtain ⟨w, huw, hw⟩ := hstep u hu
    rwa [Option.some.inj (huv.symm.trans huw)]
  obtain ⟨u, hu, -⟩ := hstep t ht
  rw [hend] at hu
  cases hu

end

theorem not_dom_of_fixed {s t : σ} (h : Reaches pass s t) (hfix : pass t = some t) :
    ¬ (eval pass s).Dom := by
  rw [reaches_eval h]
  refine not_dom_of_invariant (P := fun u => u = t) ?_ rfl
  intro u hu
  exact ⟨t, by rw [hu, hfix], rfl⟩

end RalinkSdk.Lib
