import Mathlib.Data.List.Basic

/-!
# Iterated hash functions

A block function is folded over the whole blocks of a padded text.  A text that comes in pieces is
absorbed with what is left over from the piece before.  Nothing is assumed of the block function.
-/

namespace RalinkSdk.Lib

open List Nat

variable {α σ : Type}

/-- The block function over the blocks of `B` bytes.  A last block that is not whole is left out. -/
def foldBlocks (B : Nat) (compress : σ → List α → σ) (s : σ) (text : List α) : σ :=
  if 0 < B ∧ B ≤ text.length then
    foldBlocks B compress (compress s (text.take B)) (text.drop B)
  else s
termination_by text.length
decreasing_by rw [length_drop]; omega

section

variable {B : Nat} {compress : σ → List α → σ} {s : σ} {block whole tail text rest : List α}

theorem foldBlocks_short (h : text.length < B) : foldBlocks B compress s text = s := by
  rw [foldBlocks, if_neg fun hwhole => absurd hwhole.2 (Nat.not_le.mpr h)]

theorem foldBlocks_nil (hB : 0 < B) : foldBlocks B compress s [] = s := foldBlocks_short hB

theorem foldBlocks_cons (hB : 0 < B) (h : block.length = B) :
    foldBlocks B compress s (block ++ rest) = foldBlocks B compress (compress s block) rest := by
  have hlen : B ≤ (block ++ rest).length := by
    rw [length_append]
    omega
  rw [foldBlocks, if_pos ⟨hB, hlen⟩, take_left' h, drop_left' h]

theorem foldBlocks_block (hB : 0 < B) (h : block.length = B) :
    foldBlocks B compress s block = compress s block := by
  have hcons : foldBlocks B compress s (block ++ []) =
      foldBlocks B compress (compress s block) [] := foldBlocks_cons hB h
  rwa [append_nil, foldBlocks_nil hB] at hcons

theorem foldBlocks_append (hB : 0 < B) (hwhole : whole.length % B = 0) :
    foldBlocks B compress s (whole ++ rest) =
      foldBlocks B compress (foldBlocks B compress s whole) rest := by
  induction hn : whole.length using Nat.strongRecOn generalizing whole s with
  | _ n ih =>
    by_cases hnil : whole = []
    · subst hnil
      rw [nil_append, foldBlocks_nil hB]
    · -- the first block of `whole`
      have hpos := length_pos_iff.mpr hnil
      have hlen : B ≤ whole.length := le_of_dvd hpos (dvd_of_mod_eq_zero hwhole)
      have hsplit := (take_append_drop B whole).symm
      have hblock : (whole.take B).length = B := length_take_of_le hlen
      have hdrop : (whole.drop B).length = whole.length - B := length_drop
      have hmod : (whole.drop B).length % B = 0 := by
        rw [hdrop, ← mod_eq_sub_mod hlen, hwhole]
      rw [hsplit, append_assoc, foldBlocks_cons hB hblock, foldBlocks_cons hB hblock]
      exact ih _ (by omega) hmod rfl

end

/-! ## Texts in pieces -/

/-- A state and a rest that is shorter than a block stand for a text. -/
def Absorbed (B : Nat) (compress : σ → List α → σ) (init s : σ) (tail text : List α) : Prop :=
  ∃ whole, text = whole ++ tail ∧ whole.length % B = 0 ∧ tail.length < B ∧
    s = foldBlocks B compress init whole

section

variable {B : Nat} {compress : σ → List α → σ} {init s : σ} {tail text part : List α}

theorem Absorbed.nil (hB : 0 < B) : Absorbed B compress init init [] [] :=
  ⟨[], rfl, zero_mod B, hB, (foldBlocks_short hB).symm⟩

theorem Absorbed.length_tail (h : Absorbed B compress init s tail text) :
    tail.length = text.length % B := by
  obtain ⟨whole, rfl, hwhole, htail, -⟩ := h
  rw [length_append, add_mod, hwhole, Nat.zero_add, mod_mod, mod_eq_of_lt htail]

theorem Absorbed.short (h : Absorbed B compress init s tail text)
    (hlt : tail.length + part.length < B) :
    Absorbed B compress init s (tail ++ part) (text ++ part) := by
  obtain ⟨whole, rfl, hwhole, -, rfl⟩ := h
  exact ⟨whole, append_assoc _ _ _, hwhole, by rwa [length_append], rfl⟩

theorem Absorbed.full (hB : 0 < B) (h : Absorbed B compress init s tail text)
    (hlen : tail.length + part.length = B) :
    Absorbed B compress init (compress s (tail ++ part)) [] (text ++ part) := by
  obtain ⟨whole, rfl, hwhole, -, rfl⟩ := h
  have hblock : (tail ++ part).length = B := by rwa [length_append]
  refine ⟨whole ++ (tail ++ part), by simp, ?_, hB, ?_⟩
  · rw [length_append, hblock, add_mod_right, hwhole]
  · rw [foldBlocks_append hB hwhole, foldBlocks_block hB hblock]

theorem Absorbed.foldBlocks_append (hB : 0 < B) (h : Absorbed B compress init s tail text)
    (rest : List α) :
    foldBlocks B compress init (text ++ rest) = foldBlocks B compress s (tail ++ rest) := by
  obtain ⟨whole, rfl, hwhole, -, rfl⟩ := h
  rw [append_assoc, RalinkSdk.Lib.foldBlocks_append hB hwhole]

end

/-! ## Padding -/

/-- The least number of zeros that fills the last block. -/
def padZeros (B used : Nat) : Nat := (B - used % B) % B

/-- Marker, zeros and length field. -/
def mdPadding (B : Nat) (marker zero : α) (field : List α) (n : Nat) : List α :=
  marker :: (replicate (padZeros B (n + 1 + field.length)) zero ++ field)

def mdPad (B : Nat) (marker zero : α) (field text : List α) : List α :=
  text ++ mdPadding B marker zero field text.length

end RalinkSdk.Lib
