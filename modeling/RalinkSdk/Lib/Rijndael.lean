import Mathlib

/-!
# The Rijndael block cipher

The rounds of the cipher on states of four columns of four bytes, for an arbitrary substitution of
bytes and arbitrary round keys, and the recursion for the words of a key schedule.  What an
implementation computes is compared with `cipher`, and what it expands a key to with `IsSchedule`.

## Main results

- `invMixColumn_mixColumn`: the matrix of the decryption undoes that of the encryption.
- `IsSchedule.unique`: a key has one schedule.
-/

namespace RalinkSdk.Lib.Rijndael

/-- Four bytes. -/
abbrev Column := Fin 4 → BitVec 8

/-- Four columns: a state, or the key of a round. -/
abbrev State := Fin 4 → Column

/-! ## Multiplication by constants -/

/-- The product with `x` in the field of 256 elements. -/
def xtime (a : BitVec 8) : BitVec 8 := if a.msb then a <<< 1 ^^^ 0x1b else a <<< 1

/-- The products with 3, 9, 11, 13 and 14. -/
def mul3 (a : BitVec 8) : BitVec 8 := xtime a ^^^ a

def mul9 (a : BitVec 8) : BitVec 8 := xtime (xtime (xtime a)) ^^^ a

def mul11 (a : BitVec 8) : BitVec 8 := xtime (xtime (xtime a)) ^^^ xtime a ^^^ a

def mul13 (a : BitVec 8) : BitVec 8 := xtime (xtime (xtime a)) ^^^ xtime (xtime a) ^^^ a

def mul14 (a : BitVec 8) : BitVec 8 := xtime (xtime (xtime a)) ^^^ xtime (xtime a) ^^^ xtime a

theorem xtime_xor (a b : BitVec 8) : xtime (a ^^^ b) = xtime a ^^^ xtime b := by
  unfold xtime
  rw [BitVec.msb_xor, BitVec.shiftLeft_xor_distrib]
  cases a.msb <;> cases b.msb
  · rfl
  · exact BitVec.xor_assoc _ _ _
  · show (a <<< 1 ^^^ b <<< 1) ^^^ 0x1b = (a <<< 1 ^^^ 0x1b) ^^^ b <<< 1
    ac_rfl
  · have hpair : a <<< 1 ^^^ b <<< 1 ^^^ (0x1b ^^^ 0x1b) =
        (a <<< 1 ^^^ 0x1b) ^^^ (b <<< 1 ^^^ 0x1b) := by ac_rfl
    rwa [BitVec.xor_self, BitVec.xor_zero] at hpair

theorem mul9_xor (a b : BitVec 8) : mul9 (a ^^^ b) = mul9 a ^^^ mul9 b := by
  simp only [mul9, xtime_xor]
  ac_rfl

theorem mul11_xor (a b : BitVec 8) : mul11 (a ^^^ b) = mul11 a ^^^ mul11 b := by
  simp only [mul11, xtime_xor]
  ac_rfl

theorem mul13_xor (a b : BitVec 8) : mul13 (a ^^^ b) = mul13 a ^^^ mul13 b := by
  simp only [mul13, xtime_xor]
  ac_rfl

theorem mul14_xor (a b : BitVec 8) : mul14 (a ^^^ b) = mul14 a ^^^ mul14 b := by
  simp only [mul14, xtime_xor]
  ac_rfl

/-! ## The steps of a round -/

def mixColumn (a : Column) : Column := fun r =>
  xtime (a r) ^^^ mul3 (a (r + 1)) ^^^ a (r + 2) ^^^ a (r + 3)

def invMixColumn (a : Column) : Column := fun r =>
  mul14 (a r) ^^^ mul11 (a (r + 1)) ^^^ mul13 (a (r + 2)) ^^^ mul9 (a (r + 3))

def mixColumns (s : State) : State := fun c => mixColumn (s c)

def invMixColumns (s : State) : State := fun c => invMixColumn (s c)

def shiftRows (s : State) : State := fun c r => s (c + r) r

def invShiftRows (s : State) : State := fun c r => s (c - r) r

def subBytes (S : BitVec 8 → BitVec 8) (s : State) : State := fun c r => S (s c r)

def addRoundKey (k s : State) : State := fun c r => s c r ^^^ k c r

theorem matrix_product : ∀ a : BitVec 8,
    mul14 (xtime a) ^^^ mul11 a ^^^ mul13 a ^^^ mul9 (mul3 a) = a ∧
      mul14 (mul3 a) ^^^ mul11 (xtime a) ^^^ mul13 a ^^^ mul9 a = 0 ∧
      mul14 a ^^^ mul11 (mul3 a) ^^^ mul13 (xtime a) ^^^ mul9 a = 0 ∧
      mul14 a ^^^ mul11 a ^^^ mul13 (mul3 a) ^^^ mul9 (xtime a) = 0 := by
  decide +kernel

theorem matrix_diagonal (a : BitVec 8) :
    mul14 (xtime a) ^^^ mul11 a ^^^ mul13 a ^^^ mul9 (mul3 a) = a :=
  (matrix_product a).1

theorem matrix_next (a : BitVec 8) :
    mul14 (mul3 a) ^^^ mul11 (xtime a) ^^^ mul13 a ^^^ mul9 a = 0 :=
  (matrix_product a).2.1

theorem matrix_opposite (a : BitVec 8) :
    mul14 a ^^^ mul11 (mul3 a) ^^^ mul13 (xtime a) ^^^ mul9 a = 0 :=
  (matrix_product a).2.2.1

theorem matrix_last (a : BitVec 8) :
    mul14 a ^^^ mul11 a ^^^ mul13 (mul3 a) ^^^ mul9 (xtime a) = 0 :=
  (matrix_product a).2.2.2

@[simp] theorem invMixColumn_mixColumn (a : Column) : invMixColumn (mixColumn a) = a := by
  funext r
  have htwo : r + 1 + 1 = r + 2 ∧ r + 1 + 2 = r + 3 ∧ r + 1 + 3 = r ∧ r + 2 + 1 = r + 3 ∧
      r + 2 + 2 = r ∧ r + 2 + 3 = r + 1 ∧ r + 3 + 1 = r ∧ r + 3 + 2 = r + 1 ∧ r + 3 + 3 = r + 2 := by
    revert r
    decide
  obtain ⟨h11, h12, h13, h21, h22, h23, h31, h32, h33⟩ := htwo
  simp only [invMixColumn, mixColumn, h11, h12, h13, h21, h22, h23, h31, h32, h33, mul9_xor,
    mul11_xor, mul13_xor, mul14_xor]
  -- row by row becomes byte by byte
  calc _ = (mul14 (xtime (a r)) ^^^ mul11 (a r) ^^^ mul13 (a r) ^^^ mul9 (mul3 (a r))) ^^^
        (mul14 (mul3 (a (r + 1))) ^^^ mul11 (xtime (a (r + 1))) ^^^ mul13 (a (r + 1)) ^^^
          mul9 (a (r + 1))) ^^^
        (mul14 (a (r + 2)) ^^^ mul11 (mul3 (a (r + 2))) ^^^ mul13 (xtime (a (r + 2))) ^^^
          mul9 (a (r + 2))) ^^^
        (mul14 (a (r + 3)) ^^^ mul11 (a (r + 3)) ^^^ mul13 (mul3 (a (r + 3))) ^^^
          mul9 (xtime (a (r + 3)))) := by ac_rfl
    _ = a r := by
      rw [matrix_diagonal, matrix_next, matrix_opposite, matrix_last]
      simp

@[simp] theorem invMixColumns_mixColumns (s : State) : invMixColumns (mixColumns s) = s :=
  funext fun c => invMixColumn_mixColumn (s c)

@[simp] theorem invShiftRows_shiftRows (s : State) : invShiftRows (shiftRows s) = s := by
  funext c r
  simp [invShiftRows, shiftRows]

@[simp] theorem addRoundKey_addRoundKey (k s : State) : addRoundKey k (addRoundKey k s) = s := by
  funext c r
  simp [addRoundKey]

section

variable (S T : BitVec 8 → BitVec 8)

theorem subBytes_subBytes {S T : BitVec 8 → BitVec 8} (h : ∀ a, T (S a) = a) (s : State) :
    subBytes T (subBytes S s) = s :=
  funext fun c => funext fun r => h (s c r)

/-- A round but the last. -/
def round (k s : State) : State := addRoundKey k (mixColumns (shiftRows (subBytes S s)))

def invRound (k s : State) : State := subBytes T (invShiftRows (invMixColumns (addRoundKey k s)))

/-- The first rounds, with the keys from 1 on. -/
def rounds (k : Nat → State) (s : State) : Nat → State
  | 0 => addRoundKey (k 0) s
  | n + 1 => round S (k (n + 1)) (rounds k s n)

/-- The rounds from the last one down. -/
def invRounds (k : Nat → State) : Nat → State → State
  | 0, s => addRoundKey (k 0) s
  | n + 1, s => invRounds k n (invRound T (k (n + 1)) s)

/-- The cipher with `n + 1` rounds. -/
def cipher (n : Nat) (k : Nat → State) (s : State) : State :=
  addRoundKey (k (n + 1)) (shiftRows (subBytes S (rounds S k s n)))

def invCipher (n : Nat) (k : Nat → State) (s : State) : State :=
  invRounds T k n (subBytes T (invShiftRows (addRoundKey (k (n + 1)) s)))

variable {S T}

theorem invRound_round (h : ∀ a, T (S a) = a) (k s : State) : invRound T k (round S k s) = s := by
  simp [invRound, round, subBytes_subBytes h]

theorem invRounds_rounds (h : ∀ a, T (S a) = a) (k : Nat → State) (s : State) (n : Nat) :
    invRounds T k n (rounds S k s n) = s := by
  induction n with
  | zero => simp [invRounds, rounds]
  | succ n ih => rw [rounds, invRounds, invRound_round h, ih]

/-- **Decryption**: the cipher backwards undoes the cipher. -/
theorem invCipher_cipher (h : ∀ a, T (S a) = a) (n : Nat) (k : Nat → State) (s : State) :
    invCipher T n k (cipher S n k s) = s := by
  rw [invCipher, cipher, addRoundKey_addRoundKey, invShiftRows_shiftRows, subBytes_subBytes h,
    invRounds_rounds h]

theorem rounds_congr {k k' : Nat → State} {n : Nat} (h : ∀ i ≤ n, k i = k' i) (s : State) :
    rounds S k s n = rounds S k' s n := by
  induction n with
  | zero => rw [rounds, rounds, h 0 le_rfl]
  | succ n ih =>
    rw [rounds, rounds, h (n + 1) le_rfl, ih fun i hi => h i (Nat.le_succ_of_le hi)]

theorem cipher_congr {k k' : Nat → State} {n : Nat} (h : ∀ i ≤ n + 1, k i = k' i) (s : State) :
    cipher S n k s = cipher S n k' s := by
  rw [cipher, cipher, h (n + 1) le_rfl, rounds_congr fun i hi => h i (Nat.le_succ_of_le hi)]

end

/-! ## Key schedules -/

section

variable (S : BitVec 8 → BitVec 8) (rcon : Nat → BitVec 8) (nk : Nat)

def rotWord (a : Column) : Column := fun r => a (r + 1)

def subWord (a : Column) : Column := fun r => S (a r)

/-- What is added to the word `nk` places back to make word `i`, from the word before. -/
def scheduleTemp (i : Nat) (a : Column) : Column :=
  if i % nk = 0 then fun r => subWord S (rotWord a) r ^^^ if r = 0 then rcon (i / nk) else 0
  else if 6 < nk ∧ i % nk = 4 then subWord S a
  else a

/-- The first `n` words of a schedule for a key of `nk` words. -/
structure IsSchedule (key : Nat → Column) (n : Nat) (w : Nat → Column) : Prop where
  start : ∀ i < nk, w i = key i
  next : ∀ i, nk ≤ i → i < n →
    w i = fun r => w (i - nk) r ^^^ scheduleTemp S rcon nk i (w (i - 1)) r

variable {S rcon nk}

theorem IsSchedule.unique {key w w' : Nat → Column} {n : Nat} (hnk : 0 < nk)
    (h : IsSchedule S rcon nk key n w) (h' : IsSchedule S rcon nk key n w') {i : Nat} (hi : i < n) :
    w i = w' i := by
  induction i using Nat.strong_induction_on with
  | _ i ih =>
    rcases Nat.lt_or_ge i nk with hlt | hge
    · rw [h.start i hlt, h'.start i hlt]
    · rw [h.next i hge hi, h'.next i hge hi, ih (i - nk) (by omega) (by omega),
        ih (i - 1) (by omega) (by omega)]

end

def roundKey (w : Nat → Column) (r : Nat) : State := fun c => w (4 * r + c)

end RalinkSdk.Lib.Rijndael
