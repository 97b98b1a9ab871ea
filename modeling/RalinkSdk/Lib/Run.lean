import Mathlib.Data.List.Basic

/-!
# Runs of an event-driven component

A component is a state type `σ`, an event type `ε` and a step function.
A run handles a list of events one after the other.  The two notions used
everywhere below are

- `runEvents step s es`: the state after the events `es`, and
- `Along step G s es`: the condition `G` holds of every event of the run, each
  taken at the state in which it is handled.

`Along.invariant` is the induction rule: what every step that meets `G`
preserves holds of every state such a run reaches.  `Along.of_invariant` carries a
property of single events along the same way.
-/

namespace RalinkSdk.Lib

universe u v

variable {σ : Type u} {ε : Type v}

/-- The state after handling the events `es` in order. -/
def runEvents (step : σ → ε → σ) (s : σ) (es : List ε) : σ :=
  es.foldl step s

/-- Condition `G` holds of every event of the run, at the state it is handled in. -/
def Along (step : σ → ε → σ) (G : σ → ε → Prop) : σ → List ε → Prop
  | _, [] => True
  | s, e :: es => G s e ∧ Along step G (step s e) es

section

variable {step : σ → ε → σ} {G : σ → ε → Prop} {Inv : σ → Prop}

@[simp] theorem runEvents_nil (s : σ) : runEvents step s [] = s := rfl

@[simp] theorem runEvents_cons (s : σ) (e : ε) (es : List ε) :
    runEvents step s (e :: es) = runEvents step (step s e) es := rfl

@[simp] theorem along_nil (s : σ) : Along step G s [] := trivial

@[simp] theorem along_cons (s : σ) (e : ε) (es : List ε) :
    Along step G s (e :: es) ↔ G s e ∧ Along step G (step s e) es := Iff.rfl

theorem runEvents_append (s : σ) (es es' : List ε) :
    runEvents step s (es ++ es') = runEvents step (runEvents step s es) es' :=
  List.foldl_append

variable {s : σ}

theorem along_append {es es' : List ε} :
    Along step G s (es ++ es') ↔ Along step G s es ∧ Along step G (runEvents step s es) es' := by
  induction es generalizing s with
  | nil => exact (iff_of_eq (true_and _)).symm
  | cons e es ih => rw [List.cons_append, along_cons, along_cons, runEvents_cons, ih, and_assoc]

variable {es : List ε}

/-- **Run rule**: an invariant that every step meeting `G` preserves holds after
    every run whose events all meet `G`. -/
theorem Along.invariant (hrun : Along step G s es)
    (hstep : ∀ s e, Inv s → G s e → Inv (step s e)) (h0 : Inv s) : Inv (runEvents step s es) := by
  induction es generalizing s with
  | nil => exact h0
  | cons e es ih =>
    obtain ⟨hG, hrest⟩ := hrun
    exact ih hrest (hstep s e h0 hG)

theorem runEvents_invariant (es : List ε) (hstep : ∀ s e, Inv s → Inv (step s e))
    (h0 : Inv s) : Inv (runEvents step s es) := by
  induction es generalizing s with
  | nil => exact h0
  | cons e es ih => exact ih (hstep s e h0)

/-- **Trace rule**: what every step meeting `G` guarantees from the invariant holds
    of every event of such a run. -/
theorem Along.of_invariant {P : σ → ε → Prop} (hrun : Along step G s es)
    (hstep : ∀ s e, Inv s → G s e → Inv (step s e)) (hP : ∀ s e, Inv s → G s e → P s e)
    (h0 : Inv s) : Along step P s es := by
  induction es generalizing s with
  | nil => trivial
  | cons e es ih =>
    obtain ⟨hG, hrest⟩ := hrun
    exact ⟨hP s e h0 hG, ih hrest (hstep s e h0 hG)⟩

theorem Along.last {e : ε} (hrun : Along step G s (es ++ [e])) : G (runEvents step s es) e := by
  induction es generalizing s with
  | nil => exact hrun.1
  | cons e' es ih => exact ih hrun.2

theorem Along.and {H : σ → ε → Prop} (hG : Along step G s es)
    (hH : Along step H s es) : Along step (fun s e => G s e ∧ H s e) s es := by
  induction es generalizing s with
  | nil => trivial
  | cons e es ih => exact ⟨⟨hG.1, hH.1⟩, ih hG.2 hH.2⟩

/-- **Equivalent conditions**: if under the invariant a property of an event is the same as the
    condition that keeps the invariant, then it holds along the runs along which the condition
    does. -/
theorem along_iff_of_invariant {P : σ → ε → Prop} (es : List ε)
    (hstep : ∀ s e, Inv s → G s e → Inv (step s e)) (hiff : ∀ s e, Inv s → (P s e ↔ G s e))
    (h0 : Inv s) : Along step P s es ↔ Along step G s es := by
  induction es generalizing s with
  | nil => exact Iff.rfl
  | cons e es ih =>
    rw [along_cons, along_cons, hiff s e h0]
    exact and_congr_right fun hG => ih (hstep s e h0 hG)

theorem foldlM_invariant {step : σ → ε → Option σ} (es : List ε)
    (hstep : ∀ s e, Inv s → ∃ s', step s e = some s' ∧ Inv s') (h0 : Inv s) :
    ∃ s', es.foldlM step s = some s' ∧ Inv s' := by
  induction es generalizing s with
  | nil => exact ⟨s, rfl, h0⟩
  | cons e es ih =>
    obtain ⟨s', hrun, hInv⟩ := hstep s e h0
    rw [List.foldlM_cons, hrun]
    exact ih hInv

end

/-! ## Steps that may fail -/

/-- An event in a component that may have failed. -/
def stepM (step : σ → ε → Option σ) (s : Option σ) (e : ε) : Option σ := s.bind (step · e)

/-- A property of an event in a component that has not failed. -/
def OnSome (P : σ → ε → Prop) (s : Option σ) (e : ε) : Prop := ∀ d, s = some d → P d e

@[simp] theorem stepM_some (step : σ → ε → Option σ) (s : σ) (e : ε) :
    stepM step (some s) e = step s e := rfl

@[simp] theorem onSome_some {P : σ → ε → Prop} {s : σ} {e : ε} : OnSome P (some s) e ↔ P s e := by
  simp [OnSome]

instance instDecidableOnSome (P : σ → ε → Prop) [∀ d e, Decidable (P d e)] :
    (s : Option σ) → (e : ε) → Decidable (OnSome P s e)
  | none, _ => isTrue fun _ h => by cases h
  | some d, e => decidable_of_iff (P d e) ⟨fun h _ heq => Option.some.inj heq ▸ h, fun h => h d rfl⟩

instance instDecidableAlong (step : σ → ε → σ) (G : σ → ε → Prop)
    [∀ s e, Decidable (G s e)] : ∀ (s : σ) (es : List ε), Decidable (Along step G s es)
  | _, [] => inferInstanceAs (Decidable True)
  | s, e :: es =>
    haveI := instDecidableAlong step G (step s e) es
    inferInstanceAs (Decidable (G s e ∧ Along step G (step s e) es))

end RalinkSdk.Lib
