import Mathlib.Data.BitVec
import Mathlib.Data.ZMod.Basic

/-!
# Ones' complement sums

Addition with the carry added again at the end is addition modulo `2 ^ w - 1`, except that there
are two words for 0: a sum is the word 0 only if every word in it is, and otherwise a multiple of
`2 ^ w - 1` is the word of all ones.  So a word of such a sum is told by its residue and by
whether it is 0.
-/

namespace RalinkSdk.Lib

open List Nat
open BitVec (allOnes eq_of_toNat_eq lt_def toNat_add)

variable {w : Nat}

/-- Addition with an end-around carry. -/
def onesAdd (a b : BitVec w) : BitVec w :=
  if a.toNat + b.toNat < 2 ^ w then a + b else a + b + 1

/-- The sum of words, from a start value. -/
def onesSum (init : BitVec w) (l : List (BitVec w)) : BitVec w := l.foldl onesAdd init

/-- The sum of the two halves of a word. -/
def foldHalves (x : BitVec 32) : BitVec 16 := onesAdd (x.extractLsb' 16 16) (x.extractLsb' 0 16)

theorem toNat_onesAdd (a b : BitVec w) : (onesAdd a b).toNat =
      if a.toNat + b.toNat < 2 ^ w then a.toNat + b.toNat else a.toNat + b.toNat + 1 - 2 ^ w := by
  have ha := a.isLt
  have hb := b.isLt
  unfold onesAdd
  split
  case isTrue hlt => rw [toNat_add, mod_eq_of_lt hlt]
  case isFalse hge =>
    -- the sum has a carry, and with it added there is none
    have hcarry : (a.toNat + b.toNat) % 2 ^ w = a.toNat + b.toNat - 2 ^ w := by
      rw [mod_eq_sub_mod (Nat.le_of_not_lt hge), mod_eq_of_lt (by omega)]
    have hone : (1 : BitVec w).toNat = 1 % 2 ^ w := rfl
    rw [toNat_add, toNat_add, hcarry, hone]
    rw [add_mod_mod, mod_eq_of_lt (by omega)]
    omega

theorem add_carry_eq_onesAdd (a b : BitVec w) :
    a + b + (if a + b < b then 1 else 0) = onesAdd a b := by
  have ha := a.isLt
  have hb := b.isLt
  unfold onesAdd
  by_cases hlt : a.toNat + b.toNat < 2 ^ w
  · have hsum : ¬ a + b < b := by
      rw [lt_def, toNat_add, mod_eq_of_lt hlt]
      omega
    rw [if_neg hsum, if_pos hlt]
    exact BitVec.add_zero (a + b)
  · have hsum : a + b < b := by
      rw [lt_def, toNat_add, mod_eq_sub_mod (Nat.le_of_not_lt hlt),
        mod_eq_of_lt (by omega)]
      omega
    rw [if_pos hsum, if_neg hlt]

theorem onesAdd_eq_zero (a b : BitVec w) : onesAdd a b = 0 ↔ a = 0 ∧ b = 0 := by
  have hzero : ∀ x : BitVec w, x = 0 ↔ x.toNat = 0 := fun x =>
    ⟨fun h => by rw [h]; rfl, fun h => eq_of_toNat_eq (h.trans (by rfl))⟩
  rw [hzero, hzero, hzero, toNat_onesAdd]
  split
  · omega
  · have ha := a.isLt
    omega

theorem onesSum_eq_zero (init : BitVec w) (l : List (BitVec w)) :
    onesSum init l = 0 ↔ init = 0 ∧ ∀ x ∈ l, x = 0 := by
  induction l generalizing init with
  | nil => simp [onesSum]
  | cons x l ih =>
    rw [forall_mem_cons, ← and_assoc, ← onesAdd_eq_zero]
    exact ih (onesAdd init x)

/-! ## Residues -/

/-- A word modulo `n`. -/
def residue (n : Nat) (x : BitVec w) : ZMod n := (x.toNat : ZMod n)

@[simp] theorem residue_zero (n : Nat) : residue n (0 : BitVec w) = 0 := by
  rw [residue, show (0 : BitVec w).toNat = 0 from rfl, cast_zero]

/-- The modulus goes into `2 ^ w - 1`. -/
def Casts (w n : Nat) : Prop := ((2 ^ w : Nat) : ZMod n) = 1

variable {n : Nat}

theorem residue_onesAdd (hn : Casts w n) (a b : BitVec w) :
    residue n (onesAdd a b) = residue n a + residue n b := by
  unfold residue
  rw [toNat_onesAdd]
  split
  case isTrue => rw [cast_add]
  case isFalse hge =>
    have hle : 2 ^ w ≤ a.toNat + b.toNat + 1 := le_succ_of_le (Nat.le_of_not_lt hge)
    rw [cast_sub hle, hn, cast_add, cast_add, cast_one, add_sub_cancel_right]

theorem residue_onesSum (hn : Casts w n) (init : BitVec w) (l : List (BitVec w)) :
    residue n (onesSum init l) = residue n init + (l.map (residue n)).sum := by
  induction l generalizing init with
  | nil => simp [onesSum]
  | cons x l ih =>
    rw [map_cons, sum_cons, ← add_assoc, ← residue_onesAdd hn]
    exact ih (onesAdd init x)

theorem residue_not (hn : Casts w n) (x : BitVec w) : residue n (~~~x) = -residue n x := by
  have hx := x.isLt
  unfold residue
  rw [BitVec.toNat_not, Nat.sub_sub, cast_sub (by omega), hn, cast_add, cast_one,
    sub_add_cancel_left]

theorem not_eq_allOnes_iff (x : BitVec w) : ~~~x = allOnes w ↔ x = 0 := by
  rw [← BitVec.not_zero]
  exact BitVec.not_inj

theorem not_eq_zero_iff (x : BitVec w) : ~~~x = 0 ↔ x = allOnes w := by
  rw [← not_eq_allOnes_iff, BitVec.not_not]

theorem eq_allOnes_iff (hw : 1 < w) (x : BitVec w) :
    x = allOnes w ↔ residue (2 ^ w - 1) x = 0 ∧ x ≠ 0 := by
  have hx := x.isLt
  have hpow : 2 ^ 2 ≤ 2 ^ w := Nat.pow_le_pow_right (by decide) hw
  have hzero : x ≠ 0 ↔ x.toNat ≠ 0 :=
    not_congr ⟨fun h => by rw [h]; rfl, fun h => eq_of_toNat_eq (h.trans (by rfl))⟩
  rw [residue, ZMod.natCast_eq_zero_iff, hzero]
  constructor
  · rintro rfl
    rw [BitVec.toNat_allOnes]
    exact ⟨Nat.dvd_refl _, by omega⟩
  · rintro ⟨hdvd, hne⟩
    have hle := le_of_dvd (Nat.pos_of_ne_zero hne) hdvd
    apply eq_of_toNat_eq
    rw [BitVec.toNat_allOnes]
    omega

/-! ## Words of 16 and of 32 bits -/

theorem casts_sixteen : Casts 16 65535 := by
  unfold Casts
  decide

theorem casts_thirtyTwo : Casts 32 65535 := by
  unfold Casts
  decide

theorem residue_halves (x : BitVec 32) :
    residue 65535 x = residue 65535 (x.extractLsb' 16 16) + residue 65535 (x.extractLsb' 0 16) := by
  have hsplit : x.toNat =
      (x.extractLsb' 16 16).toNat * 2 ^ 16 + (x.extractLsb' 0 16).toNat := by
    have hx := x.isLt
    simp [BitVec.extractLsb'_toNat, shiftRight_eq_div_pow]
    omega
  unfold residue
  rw [hsplit, cast_add, cast_mul, casts_sixteen, mul_one]

theorem residue_foldHalves (x : BitVec 32) : residue 65535 (foldHalves x) = residue 65535 x := by
  rw [foldHalves, residue_onesAdd casts_sixteen, residue_halves]

theorem foldHalves_eq_zero (x : BitVec 32) : foldHalves x = 0 ↔ x = 0 := by
  rw [foldHalves, onesAdd_eq_zero]
  constructor
  · rintro ⟨hhigh, hlow⟩
    apply BitVec.eq_of_getLsbD_eq
    intro i hi
    by_cases h : i < 16
    · have hbit := congrArg (fun y => y.getLsbD i) hlow
      simpa [h] using hbit
    · have hbit := congrArg (fun y => y.getLsbD (i - 16)) hhigh
      have hback : 16 + (i - 16) = i := by omega
      simpa [hback, show i - 16 < 16 by omega] using hbit
  · rintro rfl
    exact ⟨rfl, rfl⟩

/-! ## A short word in a long one -/

theorem setWidth_eq_zero (x : BitVec 16) : x.setWidth 32 = 0 ↔ x = 0 := by
  constructor
  · intro h
    have hback := congrArg (fun y => y.setWidth 16) h
    simpa using hback
  · rintro rfl
    rfl

theorem residue_setWidth (x : BitVec 16) : residue n (x.setWidth 32) = residue n x := by
  rw [residue, BitVec.toNat_setWidth_of_le (by decide), residue]

/-! ## Bytes -/

/-- The words of a text, with the high byte first.  A last single byte is the high one of its
    word. -/
def words16 : List (BitVec 8) → List (BitVec 16)
  | [] => []
  | [high] => [high ++ 0#8]
  | high :: low :: l => (high ++ low) :: words16 l

/-- The residue of the sum of the words. -/
def bytesResidue (n : Nat) (l : List (BitVec 8)) : ZMod n := ((words16 l).map (residue n)).sum

theorem toNat_append_eq {m n : Nat} (x : BitVec m) (y : BitVec n) :
    (x ++ y).toNat = x.toNat * 2 ^ n + y.toNat := by
  rw [BitVec.toNat_append, ← shiftLeft_add_eq_or_of_lt y.isLt, Nat.shiftLeft_eq]

theorem toNat_append_byte {v : Nat} (high : BitVec v) (low : BitVec 8) :
    (high ++ low).toNat = 256 * high.toNat + low.toNat := by
  rw [toNat_append_eq]
  omega

theorem append_byte_eq_zero {high low : BitVec 8} (h : high ++ low = (0 : BitVec 16)) :
    high = 0 ∧ low = 0 := by
  have hsplit := toNat_append_byte high low
  rw [h] at hsplit
  constructor
  · bv_omega
  · bv_omega

theorem residue_append_byte (n : Nat) {v : Nat} (high : BitVec v) (low : BitVec 8) :
    residue n (high ++ low) = 256 * residue n high + residue n low := by
  unfold residue
  rw [toNat_append_byte, cast_add, cast_mul]
  rfl

@[simp] theorem bytesResidue_nil (n : Nat) : bytesResidue n [] = 0 := rfl

@[simp] theorem bytesResidue_cons_cons (n : Nat) (high low : BitVec 8) (l : List (BitVec 8)) :
    bytesResidue n (high :: low :: l) =
      256 * residue n high + residue n low + bytesResidue n l := by
  rw [← residue_append_byte]
  rfl

theorem bytesResidue_append (n : Nat) (l' l : List (BitVec 8)) (h : l.length % 2 = 0) :
    bytesResidue n (l ++ l') = bytesResidue n l + bytesResidue n l' := by
  induction l using words16.induct with
  | case1 => rw [nil_append, bytesResidue_nil, zero_add]
  | case2 high => exact absurd h Nat.one_ne_zero
  | case3 high low l ih =>
    have heven : l.length % 2 = 0 := by
      simp only [length_cons] at h
      omega
    rw [cons_append, cons_append, bytesResidue_cons_cons, bytesResidue_cons_cons,
      ih heven, ← add_assoc]

theorem words16_eq_zero {l : List (BitVec 8)} (h : ∀ x ∈ words16 l, x = 0) : ∀ b ∈ l, b = 0 := by
  induction l using words16.induct with
  | case1 => exact fun b hb => absurd hb not_mem_nil
  | case2 high =>
    intro b hb
    rw [mem_singleton.mp hb]
    exact (append_byte_eq_zero (h (high ++ 0#8) (mem_singleton.mpr rfl))).1
  | case3 high low l ih =>
    obtain ⟨hhigh, hlow⟩ := append_byte_eq_zero (h (high ++ low) mem_cons_self)
    have hrest := ih fun x hx => h x (mem_cons_of_mem _ hx)
    intro b hb
    rcases mem_cons.mp hb with rfl | hb
    · exact hhigh
    · rcases mem_cons.mp hb with rfl | hb
      · exact hlow
      · exact hrest b hb

/-- **The sum of a text is the word of all ones** if its residue is 0, unless all bytes are. -/
theorem onesSum_words16_eq_allOnes {l : List (BitVec 8)} (hsum : bytesResidue 65535 l = 0)
    {b : BitVec 8} (hb : b ∈ l) (hne : b ≠ 0) : onesSum 0 (words16 l) = allOnes 16 := by
  rw [eq_allOnes_iff (by decide)]
  constructor
  · show residue 65535 _ = 0
    rw [residue_onesSum casts_sixteen, residue_zero, zero_add]
    exact hsum
  · intro hzero
    exact hne (words16_eq_zero ((onesSum_eq_zero 0 _).mp hzero).2 b hb)

end RalinkSdk.Lib
