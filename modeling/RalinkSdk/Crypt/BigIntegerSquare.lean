import RalinkSdk.Crypt.BigIntegerAdd
import RalinkSdk.Crypt.BigIntegerMul

/-!
# Squares

`BigInteger_Square` adds the squares of the words to twice the sum of the products of different
words.  Everything is exact but the doubling, which infers the carry out of a word from the word
that is left and misses it where all bits are set and a carry comes in.
-/

namespace RalinkSdk.Crypt

open Lib List Option Nat
open BitVec (ofNat lt_def toNat_add toNat_and toNat_mul toNat_ofNat)

namespace BigInteger

/-! ## The squares of the words -/

theorem wordsNat_squareHalves {hbits lbits : BitVec 32} (hh : hbits.toNat < 2 ^ 16)
    (hl : lbits.toNat < 2 ^ 16) : wordsNat [lbits * lbits + (hbits * lbits &&& 0x7FFF) <<< 17,
        if lbits * lbits + (hbits * lbits &&& 0x7FFF) <<< 17 < (hbits * lbits &&& 0x7FFF) <<< 17 then
          hbits * hbits + ((hbits * lbits) >>> 15 &&& 0x1FFFF) + 1
        else hbits * hbits + ((hbits * lbits) >>> 15 &&& 0x1FFFF)] =
      (2 ^ 16 * hbits.toNat + lbits.toNat) * (2 ^ 16 * hbits.toNat + lbits.toNat) := by
  have hsquare : (2 ^ 16 * hbits.toNat + lbits.toNat) * (2 ^ 16 * hbits.toNat + lbits.toNat) =
      2 ^ 32 * (hbits.toNat * hbits.toNat) + 2 ^ 17 * (hbits.toNat * lbits.toNat) +
        lbits.toNat * lbits.toNat := by ring
  have htop : (2 ^ 16 * hbits.toNat + lbits.toNat) * (2 ^ 16 * hbits.toNat + lbits.toNat) ≤
      (2 ^ 32 - 1) * (2 ^ 32 - 1) := Nat.mul_le_mul (by omega) (by omega)
  have hhl : hbits.toNat * lbits.toNat ≤ (2 ^ 16 - 1) * (2 ^ 16 - 1) :=
    Nat.mul_le_mul (by omega) (by omega)
  have hll : lbits.toNat * lbits.toNat ≤ (2 ^ 16 - 1) * (2 ^ 16 - 1) :=
    Nat.mul_le_mul (by omega) (by omega)
  have hhh : hbits.toNat * hbits.toNat ≤ (2 ^ 16 - 1) * (2 ^ 16 - 1) :=
    Nat.mul_le_mul (by omega) (by omega)
  have hcross : (hbits * lbits).toNat = hbits.toNat * lbits.toNat := by
    rw [toNat_mul, mod_eq_of_lt (by omega)]
  have htemp2 : ((hbits * lbits &&& 0x7FFF) <<< 17).toNat =
      2 ^ 17 * (hbits.toNat * lbits.toNat % 2 ^ 15) := by
    rw [BitVec.toNat_shiftLeft, toNat_and, show (0x7FFF : BitVec 32).toNat = 2 ^ 15 - 1 from rfl,
      and_two_pow_sub_one_eq_mod, hcross, Nat.shiftLeft_eq, mod_eq_of_lt (by omega), Nat.mul_comm]
  have hrest : ((hbits * lbits) >>> 15 &&& 0x1FFFF).toNat = hbits.toNat * lbits.toNat / 2 ^ 15 := by
    rw [toNat_and, BitVec.toNat_ushiftRight, hcross,
      show (0x1FFFF : BitVec 32).toNat = 2 ^ 17 - 1 from rfl, and_two_pow_sub_one_eq_mod,
      shiftRight_eq_div_pow, mod_eq_of_lt (by omega)]
  have hlow : (lbits * lbits).toNat = lbits.toNat * lbits.toNat := by
    rw [toNat_mul, mod_eq_of_lt (by omega)]
  have hhigh : (hbits * hbits).toNat = hbits.toNat * hbits.toNat := by
    rw [toNat_mul, mod_eq_of_lt (by omega)]
  have hsplit := div_add_mod (hbits.toNat * lbits.toNat) (2 ^ 15)
  -- the comparison finds the carry of the low word, as one addend is larger than the sum
  rw [hsquare] at htop ⊢
  rw [wordsNat_cons, wordsNat_cons, wordsNat_nil]
  split_ifs with hlt
  · rw [lt_def, toNat_add, hlow, htemp2] at hlt
    rw [toNat_add, toNat_add, toNat_add, htemp2, hrest, hlow, hhigh,
      show (1 : BitVec 32).toNat = 1 from rfl]
    omega
  · rw [lt_def, toNat_add, hlow, htemp2] at hlt
    rw [toNat_add, toNat_add, htemp2, hrest, hlow, hhigh]
    omega

theorem wordsNat_squareWord (x : BitVec 32) : wordsNat (squareWord x) = x.toNat * x.toNat := by
  have hx := x.isLt
  have hhi : (x >>> 16 &&& 0xFFFF).toNat = x.toNat / 2 ^ 16 := by
    rw [toNat_and, BitVec.toNat_ushiftRight, show (0xFFFF : BitVec 32).toNat = 2 ^ 16 - 1 from rfl,
      and_two_pow_sub_one_eq_mod, shiftRight_eq_div_pow, mod_eq_of_lt (by omega)]
  have hlo : (x &&& 0xFFFF).toNat = x.toNat % 2 ^ 16 := by
    rw [toNat_and, show (0xFFFF : BitVec 32).toNat = 2 ^ 16 - 1 from rfl,
      and_two_pow_sub_one_eq_mod]
  have hhiLt : (x >>> 16 &&& 0xFFFF).toNat < 2 ^ 16 := by omega
  have hloLt : (x &&& 0xFFFF).toNat < 2 ^ 16 := by omega
  have hhalves := wordsNat_squareHalves hhiLt hloLt
  rw [hhi, hlo, div_add_mod] at hhalves
  exact hhalves

/-! ## The products of different words -/

/-- The products of each word and the words above it; a row begins two words above the row
    before. -/
def rowSum : List (BitVec 32) → Nat
  | [] => 0
  | a :: bs => a.toNat * wordsNat bs + 2 ^ 64 * rowSum bs

/-- The sum of the products of two different words, each pair once. -/
def crossSum (ws : List (BitVec 32)) : Nat := 2 ^ 32 * rowSum ws

/-- **A square** is made of the squares of its words and twice the products of different ones. -/
theorem wordsNat_mul_self (ws : List (BitVec 32)) :
    wordsNat ws * wordsNat ws = wordsNat (ws.flatMap squareWord) + 2 * crossSum ws := by
  induction ws with
  | nil => rfl
  | cons a bs ih =>
    have hlen : (squareWord a).length = 2 := rfl
    rw [flatMap_cons, wordsNat_append, wordsNat_squareWord, hlen, wordsNat_cons, crossSum, rowSum]
    rw [crossSum] at ih
    calc (a.toNat + 2 ^ 32 * wordsNat bs) * (a.toNat + 2 ^ 32 * wordsNat bs) =
          a.toNat * a.toNat + 2 * (2 ^ 32 * (a.toNat * wordsNat bs)) +
            2 ^ 64 * (wordsNat bs * wordsNat bs) := by ring
      _ = _ := by
        rw [ih]
        ring

theorem rowCarry_zeros {rs : List (BitVec 32)} {c : Nat} (hrs : rs ≠ []) (hzero : wordsNat rs = 0)
    (hc : c < 2 ^ 32) :
    ∃ out, rowCarry rs c = some out ∧ out.length = rs.length ∧ wordsNat out = wordsNat rs + c := by
  obtain ⟨r, rs, rfl⟩ := exists_cons_of_ne_nil hrs
  obtain _ | c := c
  · exact ⟨r :: rs, by rw [rowCarry], rfl, rfl⟩
  · have hr : r.toNat = 0 := by
      rw [wordsNat_cons] at hzero
      omega
    refine ⟨(r + ofNat 32 (c + 1)) :: rs, by rw [rowCarry], rfl, ?_⟩
    rw [wordsNat_cons, wordsNat_cons, toNat_add, toNat_ofNat, hr, Nat.zero_add,
      mod_mod, mod_eq_of_lt hc]
    omega

theorem firstCarry_zeros {rs : List (BitVec 32)} {c : Nat} (hrs : rs ≠ []) (hzero : wordsNat rs = 0)
    (hc : c < 2 ^ 32) :
    ∃ out, firstCarry rs c = some out ∧ out.length = rs.length ∧ wordsNat out = wordsNat rs + c := by
  obtain ⟨r, rs, rfl⟩ := exists_cons_of_ne_nil hrs
  obtain _ | c := c
  · exact ⟨r :: rs, by rw [firstCarry], rfl, rfl⟩
  · have hr : r.toNat = 0 := by
      rw [wordsNat_cons] at hzero
      omega
    refine ⟨ofNat 32 (c + 1) :: rs, by rw [firstCarry], rfl, ?_⟩
    rw [wordsNat_cons, wordsNat_cons, toNat_ofNat, hr, mod_eq_of_lt hc]
    omega

theorem rowStep_exact {a : Nat} (ha : a < 2 ^ 32) :
    StepExact (rowStep a) (fun x => x.toNat * a) (2 ^ 32) fun _ => True := by
  intro x r c hc _
  have hproduct := word_mul_le x ha
  have hr := r.isLt
  simp only [rowStep]
  generalize x.toNat * a = product at hproduct ⊢
  have h1 : (r.toNat + c) % 2 ^ 64 = r.toNat + c := mod_eq_of_lt (by omega)
  have h2 : product % 2 ^ 64 = product := mod_eq_of_lt (by omega)
  have h3 : ((r.toNat + c) % 2 ^ 32 + product) % 2 ^ 64 = (r.toNat + c) % 2 ^ 32 + product :=
    mod_eq_of_lt (by omega)
  simp only [h1, h2, h3, toNat_ofNat]
  omega

theorem firstStep_exact {a : Nat} (ha : a < 2 ^ 32) :
    StepExact (firstStep a) (fun x => x.toNat * a) (2 ^ 32) fun r => r = 0 := by
  rintro x r c hc rfl
  have hproduct := word_mul_le x ha
  simp only [firstStep, show (0 : BitVec 32).toNat = 0 from rfl]
  generalize x.toNat * a = product at hproduct ⊢
  have h1 : product % 2 ^ 64 = product := mod_eq_of_lt (by omega)
  have h2 : (product + c) % 2 ^ 64 = product + c := mod_eq_of_lt (by omega)
  simp only [h1, h2, toNat_ofNat]
  omega

variable {ws : List (BitVec 32)} {n : Nat}

theorem wordsNat_drop_eq_zero (hn : n ≤ ws.length)
    (h : wordsNat ws < 2 ^ (32 * n)) : wordsNat (ws.drop n) = 0 := by
  have hsplit := wordsNat_take_add_drop ws hn
  by_contra hne
  have hle := Nat.le_mul_of_pos_right (2 ^ (32 * n)) (Nat.pos_of_ne_zero hne)
  omega

theorem wordsNat_take_eq (hn : n ≤ ws.length)
    (h : wordsNat ws < 2 ^ (32 * n)) : wordsNat (ws.take n) = wordsNat ws := by
  have hsplit := wordsNat_take_add_drop ws hn
  rw [wordsNat_drop_eq_zero hn h, Nat.mul_zero, Nat.add_zero] at hsplit
  exact hsplit

theorem wordsNat_drop_lt {n k : Nat} (hn : n ≤ ws.length)
    (h : wordsNat ws < 2 ^ (32 * (n + k))) : wordsNat (ws.drop n) < 2 ^ (32 * k) := by
  have hsplit := wordsNat_take_add_drop ws hn
  rw [Nat.mul_add, Nat.pow_add] at h
  exact Nat.lt_of_mul_lt_mul_left (lt_of_le_of_lt (Nat.le_add_left _ _) (hsplit ▸ h))

theorem row_lt {a : BitVec 32} {bs : List (BitVec 32)} {v : Nat}
    (hv : v < 2 ^ (32 * bs.length)) : v + a.toNat * wordsNat bs < 2 ^ (32 * (bs.length + 1)) := by
  have ha := a.isLt
  have hbs := wordsNat_lt bs
  have hle : a.toNat * wordsNat bs ≤ (2 ^ 32 - 1) * (2 ^ (32 * bs.length) - 1) :=
    Nat.mul_le_mul (le_sub_one_of_lt ha) (le_sub_one_of_lt hbs)
  rw [Nat.mul_succ, Nat.pow_add]
  generalize 2 ^ (32 * bs.length) = m at hv hbs hle ⊢
  omega

theorem rows_spec {a : BitVec 32} {bs memory : List (BitVec 32)}
    (hlen : 2 * bs.length ≤ memory.length) (hmemory : wordsNat memory < 2 ^ (32 * bs.length)) :
    ∃ out, rows (a :: bs) memory = some out ∧ out.length = memory.length ∧
      wordsNat out = wordsNat memory + rowSum (a :: bs) := by
  -- each row leaves room for the next: what it adds to ends where its own products end
  induction bs generalizing a memory with
  | nil =>
    refine ⟨memory, by rw [rows]; simp, rfl, ?_⟩
    simp [rowSum]
  | cons b bs ih =>
    have hshort : (b :: bs).length ≤ memory.length := by omega
    have hfinish : ∀ c < 2 ^ 32, wordsNat (memory.drop (b :: bs).length) + c <
        2 ^ (32 * (memory.length - (b :: bs).length)) →
        ∃ out, rowCarry (memory.drop (b :: bs).length) c = some out ∧
          out.length = memory.length - (b :: bs).length ∧
          wordsNat out = wordsNat (memory.drop (b :: bs).length) + c := by
      intro c hc _
      rw [← length_drop]
      refine rowCarry_zeros (ne_nil_of_length_pos ?_) (wordsNat_drop_eq_zero hshort hmemory) hc
      rw [length_drop, length_cons]
      rw [length_cons] at hlen
      omega
    have hlt := row_lt (a := a) hmemory
    have hroom : 2 ^ (32 * ((b :: bs).length + 1)) ≤ 2 ^ (32 * memory.length) :=
      Nat.pow_le_pow_right (by decide) (by rw [length_cons] at hlen ⊢; omega)
    obtain ⟨row, hrun, hrowLen, hrowValue⟩ := chain_product (rowStep_exact a.isLt) hfinish hshort
      (by decide) (fun _ _ => trivial) (hlt.trans_le hroom)
    rw [length_cons] at hlen
    -- the low two words are done; the next row begins behind them
    have htwo : 2 ≤ row.length := by omega
    have hrestLen : 2 * bs.length ≤ (row.drop 2).length := by
      rw [length_drop]
      omega
    have hrestLt : wordsNat (row.drop 2) < 2 ^ (32 * bs.length) := by
      refine wordsNat_drop_lt htwo ?_
      rw [hrowValue, show 2 + bs.length = (b :: bs).length + 1 by rw [length_cons]; omega]
      exact hlt
    obtain ⟨out, hrest, houtLen, hout⟩ := ih (a := b) hrestLen hrestLt
    refine ⟨row.take 2 ++ out, ?_, ?_, ?_⟩
    · rw [rows, hrun]
      simp only [bind_eq_bind, bind_some, hrest]
    · rw [length_append, houtLen, length_take_of_le htwo, length_drop]
      omega
    · have hsplit := wordsNat_take_add_drop row htwo
      have hsum : rowSum (a :: b :: bs) =
          a.toNat * wordsNat (b :: bs) + 2 ^ (32 * 2) * rowSum (b :: bs) := rfl
      rw [wordsNat_append, hout, length_take_of_le htwo, hsum, Nat.mul_add, ← Nat.add_assoc,
        hsplit, hrowValue, Nat.add_assoc]

/-- **The products of different words** go into memory that holds 0. -/
theorem crossProducts_spec (hws : ws ≠ []) (hn : 2 * ws.length + 1 ≤ n) :
    ∃ out, crossProducts ws (replicate n 0) = some out ∧ out.length = n ∧
      wordsNat out = crossSum ws := by
  obtain ⟨a, bs, rfl⟩ := exists_cons_of_ne_nil hws
  rw [length_cons] at hn
  -- the word 0 has no product of different words
  have hdrop : (replicate n (0 : BitVec 32)).drop 1 = replicate (n - 1) 0 :=
    drop_replicate
  have hhead : (replicate n (0 : BitVec 32)).take 1 = [0] := by
    rw [take_replicate, min_eq_left (by omega)]
    rfl
  have hfinish : ∀ c < 2 ^ 32, wordsNat ((replicate (n - 1) (0 : BitVec 32)).drop bs.length) + c <
      2 ^ (32 * ((replicate (n - 1) (0 : BitVec 32)).length - bs.length)) →
      ∃ out, firstCarry ((replicate (n - 1) (0 : BitVec 32)).drop bs.length) c = some out ∧
        out.length = (replicate (n - 1) (0 : BitVec 32)).length - bs.length ∧
        wordsNat out = wordsNat ((replicate (n - 1) (0 : BitVec 32)).drop bs.length) + c := by
    intro c hc _
    rw [← length_drop, drop_replicate]
    refine firstCarry_zeros (fun h => ?_) (wordsNat_replicate _) hc
    have hlen := congrArg List.length h
    rw [length_replicate, length_nil] at hlen
    omega
  have hlt : 0 + a.toNat * wordsNat bs < 2 ^ (32 * (bs.length + 1)) := row_lt (Nat.two_pow_pos _)
  rw [Nat.zero_add] at hlt
  have hroom : 2 ^ (32 * (bs.length + 1)) ≤ 2 ^ (32 * (n - 1)) :=
    Nat.pow_le_pow_right (by decide) (by omega)
  obtain ⟨row, hrun, hrowLen, hrowValue⟩ := chain_product (firstStep_exact a.isLt) hfinish
    (by rw [length_replicate]; omega) (by decide)
    (fun r hr => eq_of_mem_replicate hr)
    (by rw [wordsNat_replicate, length_replicate]; omega)
  rw [wordsNat_replicate, Nat.zero_add] at hrowValue
  rw [length_replicate] at hrowLen
  have htwo : 2 ≤ row.length := by omega
  obtain ⟨rest, hrest, hrestLen, hrestValue⟩ : ∃ rest, rows bs (row.drop 2) = some rest ∧
      rest.length = (row.drop 2).length ∧ wordsNat rest = wordsNat (row.drop 2) + rowSum bs := by
    cases bs with
    | nil => exact ⟨row.drop 2, by rw [rows]; simp, rfl, rfl⟩
    | cons b bs =>
      rw [length_cons] at hn hlt
      refine rows_spec ?_ (wordsNat_drop_lt htwo ?_)
      · rw [length_drop]
        omega
      · rw [hrowValue, Nat.add_comm 2]
        exact hlt
  refine ⟨[0] ++ (row.take 2 ++ rest), ?_, ?_, ?_⟩
  · rw [crossProducts, hdrop, hrun, hhead]
    simp only [bind_eq_bind, bind_some, hrest]
  · rw [length_append, length_append, hrestLen, length_take_of_le htwo,
      length_drop, length_singleton]
    omega
  · have hsplit := wordsNat_take_add_drop row htwo
    have hsum : rowSum (a :: bs) = a.toNat * wordsNat bs + 2 ^ (32 * 2) * rowSum bs := rfl
    rw [singleton_append, wordsNat_cons, wordsNat_append, hrestValue,
      length_take_of_le htwo, Nat.mul_add (2 ^ (32 * 2)), ← Nat.add_assoc, hsplit, hrowValue,
      ← hsum, show (0 : BitVec 32).toNat = 0 from rfl, Nat.zero_add, crossSum]

/-! ## Doubling -/

/-- The loop that doubles, with the word for the last carry. -/
def doubleLoop : List (BitVec 32) → BitVec 32 → List (BitVec 32)
  | [], c => [c]
  | x :: xs, c => (doubleStep x x c).1 :: doubleLoop xs (doubleStep x x c).2

theorem length_doubleLoop (xs : List (BitVec 32)) (c : BitVec 32) :
    (doubleLoop xs c).length = xs.length + 1 := by
  induction xs generalizing c with
  | nil => rfl
  | cons x xs ih => rw [doubleLoop, length_cons, ih, length_cons]

theorem chain_doubleStep (xs : List (BitVec 32)) (c : BitVec 32) (k : Nat) :
    chain doubleStep doubleCarry xs (xs ++ replicate (k + 1) 0) c =
      some (doubleLoop xs c ++ replicate k 0) := by
  induction xs generalizing c with
  | nil => rfl
  | cons x xs ih =>
    rw [cons_append, chain, ih]
    rfl

theorem doubleStep_spec (x : BitVec 32) {c : BitVec 32} (hc : c = 0 ∨ c = 1) :
    ((doubleStep x x c).2 = 0 ∨ (doubleStep x x c).2 = 1) ∧
      (doubleStep x x c).1.toNat + 2 ^ 32 * (doubleStep x x c).2.toNat ≤ 2 * x.toNat + c.toNat ∧
      ((doubleStep x x c).1.toNat + 2 ^ 32 * (doubleStep x x c).2.toNat =
        2 * x.toNat + c.toNat ↔ ¬(x.toNat = 2 ^ 32 - 1 ∧ c.toNat = 1)) := by
  have hx := x.isLt
  have hand : x <<< 1 &&& c = 0 := by
    rcases hc with rfl | rfl
    · exact BitVec.and_zero
    · apply BitVec.eq_of_getLsbD_eq
      intro i hi
      rcases Nat.eq_zero_or_pos i with rfl | hpos
      · simp
      · simp [Nat.ne_of_gt hpos]
  have hnew : (x <<< 1 ||| c).toNat = (2 * x.toNat + c.toNat) % 2 ^ 32 := by
    rw [← BitVec.add_eq_or_of_and_eq_zero _ _ hand, toNat_add, BitVec.toNat_shiftLeft,
      Nat.shiftLeft_eq, mod_add_mod, pow_one, Nat.mul_comm]
  have hbit : c.toNat = 0 ∨ c.toNat = 1 := by
    rcases hc with rfl | rfl
    · exact .inl rfl
    · exact .inr rfl
  rw [doubleStep]
  -- the new word is smaller than the old one if the highest bit was set, all bits apart
  by_cases hlt : x <<< 1 ||| c < x
  · simp only [if_pos hlt, show (1 : BitVec 32).toNat = 1 from rfl]
    rw [lt_def, hnew] at hlt
    rw [hnew]
    refine ⟨.inr trivial, ?_, ?_⟩ <;> omega
  · simp only [if_neg hlt, show (0 : BitVec 32).toNat = 0 from rfl]
    rw [lt_def, hnew] at hlt
    rw [hnew]
    refine ⟨.inl trivial, ?_, ?_⟩ <;> omega

/-- No word has all bits set with the highest bit of the word below set, or with the carry `c` below
    the lowest word. -/
def DoubledFrom (c n : Nat) : Prop :=
  (c = 1 → digit n 0 ≠ 2 ^ 32 - 1) ∧ ∀ i, digit n (i + 1) = 2 ^ 32 - 1 → digit n i < 2 ^ 31

theorem doubledFrom_iff (c n : Nat) : DoubledFrom c n ↔
    (c = 1 → digit n 0 ≠ 2 ^ 32 - 1) ∧
      ∀ i < n.log2 / 32 + 1, digit n (i + 1) = 2 ^ 32 - 1 → digit n i < 2 ^ 31 := by
  refine and_congr_right fun _ => ⟨fun h i _ => h i, fun h i hi => ?_⟩
  refine h i ?_ hi
  by_contra hlarge
  have hlow : n < 2 ^ (32 * (i + 1)) :=
    lt_log2_self.trans_le (Nat.pow_le_pow_right Nat.two_pos (by omega))
  rw [digit, div_eq_of_lt hlow] at hi
  cases hi

instance (c n : Nat) : Decidable (DoubledFrom c n) := decidable_of_iff' _ (doubledFrom_iff c n)

theorem doubledFrom_cons {x n c : Nat} (hx : x < 2 ^ 32) : DoubledFrom c (x + 2 ^ 32 * n) ↔
      ¬(x = 2 ^ 32 - 1 ∧ c = 1) ∧ DoubledFrom (if 2 ^ 31 ≤ x then 1 else 0) n := by
  rw [DoubledFrom, DoubledFrom, digit_zero hx]
  constructor
  · rintro ⟨hlow, hhigh⟩
    refine ⟨fun h => hlow h.2 h.1, fun hone hall => ?_, fun i hi => ?_⟩
    · have hfirst := hhigh 0
      rw [digit_succ hx, digit_zero hx] at hfirst
      split_ifs at hone with htop
      exact absurd (hfirst hall) (Nat.not_lt.mpr htop)
    · have hnext := hhigh (i + 1)
      rw [digit_succ hx, digit_succ hx] at hnext
      exact hnext hi
  · rintro ⟨hlow, hfirst, hhigh⟩
    refine ⟨fun hc hall => hlow ⟨hall, hc⟩, fun i hi => ?_⟩
    rw [digit_succ hx] at hi
    cases i with
    | zero =>
      rw [digit_zero hx]
      by_contra htop
      exact hfirst (if_pos (Nat.not_lt.mp htop)) hi
    | succ i =>
      rw [digit_succ hx]
      exact hhigh i hi

/-- **Doubling** is right if and only if no carry is missed; what is missed is never made up
    for. -/
theorem doubleLoop_spec (xs : List (BitVec 32)) {c : BitVec 32} (hc : c = 0 ∨ c = 1) :
    wordsNat (doubleLoop xs c) ≤ 2 * wordsNat xs + c.toNat ∧
      (wordsNat (doubleLoop xs c) = 2 * wordsNat xs + c.toNat ↔
        DoubledFrom c.toNat (wordsNat xs)) := by
  induction xs generalizing c with
  | nil =>
    have hnone : DoubledFrom c.toNat 0 := by
      have hdigit : ∀ i, digit 0 i = 0 := fun i => by rw [digit, Nat.zero_div, zero_mod]
      refine ⟨fun _ => ?_, fun i hi => ?_⟩
      · rw [hdigit]
        decide
      · rw [hdigit] at hi
        cases hi
    rw [doubleLoop, wordsNat_cons, wordsNat_nil, Nat.mul_zero, Nat.mul_zero, Nat.add_zero,
      Nat.zero_add]
    exact ⟨le_rfl, iff_of_true rfl hnone⟩
  | cons x xs ih =>
    obtain ⟨hbit, hle, hiff⟩ := doubleStep_spec x hc
    obtain ⟨hrest, hrestIff⟩ := ih hbit
    have hx := x.isLt
    have hnew := (doubleStep x x c).1.isLt
    have hc1 := bit_le_one hc
    rw [doubleLoop, wordsNat_cons, wordsNat_cons, doubledFrom_cons hx, ← hiff]
    refine ⟨by omega, fun h => ?_, ?_⟩
    -- neither this word nor the rest can be too large, so both are right
    · have hstep : (doubleStep x x c).1.toNat + 2 ^ 32 * (doubleStep x x c).2.toNat =
          2 * x.toNat + c.toNat := by omega
      have hcarry : (doubleStep x x c).2.toNat = if 2 ^ 31 ≤ x.toNat then 1 else 0 := by
        split_ifs <;> omega
      refine ⟨hstep, ?_⟩
      rw [← hcarry]
      exact hrestIff.mp (by omega)
    · rintro ⟨hstep, hkept⟩
      have hcarry : (doubleStep x x c).2.toNat = if 2 ^ 31 ≤ x.toNat then 1 else 0 := by
        split_ifs <;> omega
      rw [← hcarry] at hkept
      have hrestEq := hrestIff.mpr hkept
      omega

/-! ## The operation -/

variable {bi : BigInteger}

theorem allocSize_positive (h : bi.signed = 1) (hn : 0 < n) : (bi.allocSize n).signed = 1 := by
  rw [allocSize_signed _ hn, h]
  exact ite_self 1

theorem clearHighBits_positive (hmemory : bi.arrayLength ≤ bi.integerArray.length)
    (hpos : 0 < bi.arrayLength) (h : bi.signed = 1) : bi.clearHighBits.signed = 1 := by
  rw [clearHighBits_signed hmemory hpos, h]
  exact ite_self 1

theorem magnitude_append_zeros {k : Nat}
    (h : bi.integerArray = ws ++ replicate k 0) (hlen : ws.length ≤ bi.arrayLength)
    (hmemory : bi.arrayLength ≤ bi.integerArray.length) : bi.magnitude = wordsNat ws := by
  have hall : wordsNat bi.integerArray = wordsNat ws := by
    rw [h, wordsNat_append, wordsNat_replicate, Nat.mul_zero, Nat.add_zero]
  rw [magnitude, words, ← hall]
  refine wordsNat_take_eq hmemory ?_
  rw [hall]
  exact (wordsNat_lt ws).trans_le (Nat.pow_le_pow_right (by decide) (Nat.mul_le_mul_left _ hlen))

theorem Exact.integerLength_le {v n : Nat} (h : bi.Exact v) (hn : 0 < n)
    (hv : v < 256 ^ n) : bi.integerLength ≤ n := by
  rcases h.le with hone | hle
  · omega
  · have hlt := (Nat.pow_lt_pow_iff_right (by decide : 1 < 256)).mp (hle.trans_lt hv)
    omega

theorem length_flatMap_squareWord (ws : List (BitVec 32)) :
    (ws.flatMap squareWord).length = 2 * ws.length := by
  induction ws with
  | nil => rfl
  | cons a bs ih =>
    rw [flatMap_cons, length_append, ih, length_cons]
    exact (Nat.mul_succ 2 _ ▸ Nat.add_comm _ _)

section

variable {x : BigInteger} {v : Nat} (hx : x.Holds v)

include hx

theorem square_bounds : wordsNat (x.words.flatMap squareWord) + 2 * crossSum x.words = v * v ∧
      v * v < 256 ^ (x.integerLength * 2) := by
  have hvalue : wordsNat x.words = v := hx.magnitude
  refine ⟨hvalue ▸ (wordsNat_mul_self x.words).symm, ?_⟩
  rw [pow_mul, sq]
  exact Nat.mul_lt_mul'' hx.lt hx.lt

theorem squareDiagonal_spec (s : BigInteger) (hsigned : s.signed = 1) :
    ∃ r, squareDiagonal x (s.allocSize (x.integerLength * 2 + 20)) = some r ∧
      r.Holds (wordsNat (x.words.flatMap squareWord)) ∧ r.signed = 1 := by
  have hpos : 0 < x.integerLength * 2 + 20 := succ_pos _
  obtain ⟨hsum, hsquare⟩ := square_bounds hx
  have halloc := allocSize_arrayLength s hpos
  set squares := x.words.flatMap squareWord with hsquares
  have hshort : squares.length ≤ wordsFor (x.integerLength * 2 + 20) := by
    rw [hsquares, length_flatMap_squareWord, hx.length_words, hx.arrayLength, wordsFor_eq, wordsFor_eq]
    omega
  have hroom : wordsFor (x.integerLength * 2 + 20) ≤
      (s.allocSize (x.integerLength * 2 + 20)).integerArray.length := by
    rw [allocSize_length _ hpos]
    exact le_max_right _ _
  have hmemory : (s.allocSize (x.integerLength * 2 + 20)).arrayLength ≤
      (squares ++ (s.allocSize (x.integerLength * 2 + 20)).integerArray.drop squares.length).length := by
    rw [halloc, length_append, length_drop]
    omega
  refine ⟨_, if_neg (Nat.not_lt.mpr (hshort.trans hroom)), ⟨hmemory, ?_, ?_, ?_, ?_⟩,
    allocSize_positive hsigned hpos⟩
  · refine magnitude_append_zeros
      (k := max s.integerArray.length (wordsFor (x.integerLength * 2 + 20)) - squares.length)
      ?_ (hshort.trans_eq halloc.symm) hmemory
    simp only [allocSize_array _ hpos, drop_replicate, ← hsquares]
  · rw [halloc, allocSize_integerLength _ hpos]
  · rw [allocSize_integerLength _ hpos]
    exact hpos
  · rw [allocSize_integerLength _ hpos]
    have hle := Nat.pow_le_pow_right (by decide : 0 < 256) (Nat.le_add_right (x.integerLength * 2) 20)
    omega

theorem squareCross_spec (result : BigInteger) (hsigned : result.signed = 1) :
    ∃ r, squareCross x (result.allocSize (x.integerLength * 2 + 20)) = some r ∧
      r.Exact (crossSum x.words) ∧ r.signed = 1 := by
  have hpos : 0 < x.integerLength * 2 + 20 := succ_pos _
  obtain ⟨hsum, hsquare⟩ := square_bounds hx
  have hwords : x.words ≠ [] :=
    ne_nil_of_length_pos (hx.arrayLength_pos.trans_eq hx.length_words.symm)
  have hn : 2 * x.words.length + 1 ≤
      max result.integerArray.length (wordsFor (x.integerLength * 2 + 20)) := by
    rw [hx.length_words, hx.arrayLength, wordsFor_eq, wordsFor_eq]
    omega
  obtain ⟨array, hrun, hlen, hvalue⟩ := crossProducts_spec hwords hn
  have halloc := allocSize_arrayLength result hpos
  have hmemory : wordsFor (x.integerLength * 2 + 20) ≤ array.length := by
    rw [hlen]
    exact le_max_right _ _
  have hfits : crossSum x.words < 2 ^ (32 * wordsFor (x.integerLength * 2 + 20)) := by
    rw [pow_words]
    have hle := Nat.pow_le_pow_right (by decide : 0 < 256)
      ((Nat.le_add_right (x.integerLength * 2) 20).trans (le_wordsFor _))
    omega
  set memory : BigInteger := { result.allocSize (x.integerLength * 2 + 20) with
    integerArray := array } with hmemoryEq
  have hlength : memory.arrayLength = wordsFor (x.integerLength * 2 + 20) := halloc
  have hinside : memory.arrayLength ≤ memory.integerArray.length := hlength.trans_le hmemory
  have hlengthPos : 0 < memory.arrayLength := hlength.symm ▸ wordsFor_pos hpos
  have hmagnitude : memory.magnitude = crossSum x.words := by
    rw [magnitude, words, hlength, wordsNat_take_eq hmemory (hvalue ▸ hfits), hvalue]
  refine ⟨memory.clearHighBits, ?_, ?_,
    clearHighBits_positive hinside hlengthPos (allocSize_positive hsigned hpos)⟩
  · rw [squareCross, allocSize_array _ hpos, hrun]
    rfl
  · rw [← hmagnitude]
    exact clearHighBits_exact hinside hlengthPos

end

theorem squareDouble_spec {r o : BigInteger} (hr : r.Exact n) (hsigned : r.signed = 1)
    (hroom : r.arrayLength < o.integerArray.length) :
    ∃ d, squareDouble r o = some d ∧ d.Exact (wordsNat (doubleLoop r.words 0)) ∧ d.signed = 1 := by
  have hzeros : max o.integerArray.length r.arrayLength - r.arrayLength =
      (o.integerArray.length - r.arrayLength - 1) + 1 := by omega
  have hcopy := copy_eq hr.toHolds o
  rw [hzeros] at hcopy
  have hlen := hr.length_words
  have hdouble := length_doubleLoop r.words 0
  have hmemory : r.arrayLength + 1 ≤ (doubleLoop r.words 0 ++
      replicate (o.integerArray.length - r.arrayLength - 1) 0).length := by
    rw [length_append, hdouble, hlen]
    exact Nat.le_add_right _ _
  set memory : BigInteger :=
    { integerArray := doubleLoop r.words 0 ++
        replicate (o.integerArray.length - r.arrayLength - 1) 0
      arrayLength := r.arrayLength + 1
      integerLength := r.integerLength + 1
      signed := r.signed } with hmemoryEq
  have hmagnitude : memory.magnitude = wordsNat (doubleLoop r.words 0) :=
    magnitude_append_zeros rfl (by rw [hdouble, hlen]) hmemory
  refine ⟨memory.clearHighBits, ?_, ?_, clearHighBits_positive hmemory (succ_pos _) hsigned⟩
  · rw [squareDouble, hcopy]
    simp only [bind_eq_bind, bind_some]
    rw [← words, chain_doubleStep]
    rfl
  · rw [← hmagnitude]
    exact clearHighBits_exact hmemory (succ_pos _)

theorem add_positive {a b : BigInteger} {v u : Nat} (ha : a.Holds v) (hb : b.Holds u)
    (hsa : a.signed = 1) (hsb : b.signed = 1) (result : BigInteger) :
    add a b result = addSame a b result := by
  have hnil : ¬(a.integerArray = [] ∨ b.integerArray = []) := by
    rintro (h | h)
    · exact ha.array_ne_nil h
    · exact hb.array_ne_nil h
  rw [add, if_neg hnil, hsa, hsb, if_neg (fun h => absurd h.2 (by decide)), if_pos (by decide)]

/-- **`BigInteger_Square`**: the object and the scratch memory have never been negative. -/
theorem square_spec {x : BigInteger} {v : Nat} (hx : x.Holds v) (result : BigInteger)
    (scratch : Scratch) (hresult : result.signed = 1) (hs : scratch.s.signed = 1) :
    ∃ r scratch', square x result scratch = some (r, scratch') ∧ scratch'.s.signed = 1 ∧
      r.Normal ∧ r.signed = 1 ∧ (r.magnitude = v * v ↔ DoubledFrom 0 (crossSum x.words)) := by
  rw [square, if_neg hx.array_ne_nil]
  by_cases hzero : x.isByte 0
  · rw [if_pos hzero]
    have hv : v = 0 := ((hx.isByte_iff 0).mp hzero).2
    have hholds := allocSize_holds result Nat.one_pos
    set zero : BigInteger := { result.allocSize 1 with signed := 1 } with hzeroEq
    have hmemory : zero.arrayLength ≤ zero.integerArray.length := hholds.memory
    have hpos : 0 < zero.arrayLength := hholds.arrayLength_pos
    have hmagnitude : zero.magnitude = 0 := hholds.magnitude
    refine ⟨zero.clearHighBits, scratch, rfl, hs, (clearHighBits_normal hmemory hpos (.inl rfl)).1,
      clearHighBits_positive hmemory hpos rfl, iff_of_true ?_ ?_⟩
    · rw [(clearHighBits_exact hmemory hpos).magnitude, hmagnitude, hv]
    · obtain ⟨hsum, -⟩ := square_bounds hx
      rw [hv] at hsum
      have hcross : crossSum x.words = 0 := by omega
      have hdigit : ∀ i, digit 0 i = 0 := fun i => by rw [digit, Nat.zero_div, zero_mod]
      rw [hcross]
      exact ⟨fun h => absurd h (by decide), fun i _ => by rw [hdigit]; decide⟩
  · rw [if_neg hzero]
    have hpos : 0 < x.integerLength * 2 + 20 := succ_pos _
    obtain ⟨hsum, hsquare⟩ := square_bounds hx
    obtain ⟨s, hsRun, hsHolds, hsSigned⟩ := squareDiagonal_spec hx scratch.s hs
    obtain ⟨c, hcRun, hcExact, hcSigned⟩ := squareCross_spec hx result hresult
    have hroom : c.arrayLength < (scratch.o.allocSize (x.integerLength * 2 + 20)).integerArray.length := by
      have hlen := hcExact.integerLength_le (n := x.integerLength * 2)
        (Nat.mul_pos hx.length_pos (by decide)) (by omega)
      refine lt_of_lt_of_le ?_ (allocSize_length _ hpos ▸ le_max_right _ _)
      rw [hcExact.arrayLength, wordsFor_eq, wordsFor_eq]
      omega
    obtain ⟨o, hoRun, hoExact, hoSigned⟩ := squareDouble_spec hcExact hcSigned hroom
    obtain ⟨r, hrRun, hrMag, hrSigned, hrPos, hrMem⟩ := addSame_spec hoExact.toHolds hsHolds c
    have hexact := clearHighBits_exact hrMem hrPos
    set sum : BigInteger := { r.clearHighBits with signed := 1 } with hsumEq
    have hmemory : sum.arrayLength ≤ sum.integerArray.length := hexact.memory
    have hpos' : 0 < sum.arrayLength := hexact.arrayLength_pos
    have hmagnitude : sum.magnitude = r.magnitude := hexact.magnitude
    refine ⟨sum.clearHighBits, { scratch with s := s, o := o }, ?_, hsSigned,
      (clearHighBits_normal hmemory hpos' (.inl rfl)).1, clearHighBits_positive hmemory hpos' rfl, ?_⟩
    · simp only [hsRun, hcRun, hoRun, add_positive hoExact.toHolds hsHolds hoSigned hsSigned, hrRun,
        bind_eq_bind, bind_some]
      rfl
    · rw [(clearHighBits_exact hmemory hpos').magnitude, hmagnitude, hrMag]
      have hdouble := (doubleLoop_spec c.words (.inl rfl)).2
      have hcross : wordsNat c.words = crossSum x.words := hcExact.magnitude
      rw [hcross, show (0 : BitVec 32).toNat = 0 from rfl, Nat.add_zero] at hdouble
      rw [← hdouble]
      omega

/-- **`BigInteger_Square`** returns the value of `BigInteger_Mul` if and only if no word of the sum of
    the products of different words has all bits set, with the highest bit of the word below it
    set. -/
theorem square_eq_mul_iff {x : BigInteger} (hx : x.Normal) (result result' : BigInteger)
    (scratch : Scratch) (hresult : result.signed = 1) (hs : scratch.s.signed = 1) :
    ∃ r scratch' m, square x result scratch = some (r, scratch') ∧ scratch'.s.signed = 1 ∧
      r.Normal ∧ r.signed = 1 ∧ mul x x result' = some m ∧
        (r.value = m.value ↔
          ∀ i, digit (crossSum x.words) (i + 1) = 2 ^ 32 - 1 →
            digit (crossSum x.words) i < 2 ^ 31) := by
  obtain ⟨r, scratch', hrun, hsigned, hnormal, hpositive, hiff⟩ :=
    square_spec hx.exact.toHolds result scratch hresult hs
  obtain ⟨m, hmul, hmag, hpos, hmem⟩ := mul_holds hx.exact.toHolds hx.exact.toHolds result'
  have hsign : x.signed * x.signed = 1 := by
    rcases hx.signed with h | h <;> rw [h] <;> rfl
  rw [hsign] at hmul
  set product : BigInteger := { m with signed := 1 } with hproduct
  refine ⟨r, scratch', product.clearHighBits, hrun, hsigned, hnormal, hpositive, hmul, ?_⟩
  have hmem' : product.arrayLength ≤ product.integerArray.length := hmem
  have hpos' : 0 < product.arrayLength := hpos
  have hvalue : product.clearHighBits.value = (x.magnitude * x.magnitude : Nat) := by
    rw [(clearHighBits_normal hmem' hpos' (.inl rfl)).2, ← hmag]
    exact one_mul _
  have hzero : DoubledFrom 0 (crossSum x.words) ↔
      ∀ i, digit (crossSum x.words) (i + 1) = 2 ^ 32 - 1 → digit (crossSum x.words) i < 2 ^ 31 :=
    and_iff_right fun h => absurd h (by decide)
  rw [← hzero, ← hiff, hvalue, value, hpositive, one_mul, Nat.cast_inj]

/-- The square of 5. -/
theorem square_eq_mul_iff_five :
    ∃ r scratch' m, square ⟨[5], 1, 1, 1⟩ init ⟨init, init, init⟩ = some (r, scratch') ∧
      mul ⟨[5], 1, 1, 1⟩ ⟨[5], 1, 1, 1⟩ init = some m ∧ r.value = m.value := by
  obtain ⟨r, scratch', m, hr, -, -, -, hm, hiff⟩ := square_eq_mul_iff (x := ⟨[5], 1, 1, 1⟩)
    ⟨⟨⟨le_rfl, rfl, rfl, Nat.one_pos, by decide⟩, .inl rfl⟩, .inl rfl, fun _ => rfl⟩
    init init ⟨init, init, init⟩ rfl rfl
  refine ⟨r, scratch', m, hr, hm, hiff.mpr fun i hi => ?_⟩
  have hcross : crossSum (words ⟨[5], 1, 1, 1⟩) = 0 := by decide
  rw [hcross, digit, Nat.zero_div, Nat.zero_mod] at hi
  cases hi

/-- The square of `2^64 + 2^32 + 0xFFFFFFFF` comes out `2^96` too small. -/
theorem square_carry_lost : Normal ⟨[0xFFFFFFFF, 1, 1], 3, 9, 1⟩ ∧
      (square ⟨[0xFFFFFFFF, 1, 1], 3, 9, 1⟩ init ⟨init, init, init⟩).map (·.1.value) =
        some 340282367158622951043061108342639296513 ∧
      (mul ⟨[0xFFFFFFFF, 1, 1], 3, 9, 1⟩ ⟨[0xFFFFFFFF, 1, 1], 3, 9, 1⟩ init).map value =
        some 340282367237851113557325445936183246849 :=
  ⟨⟨⟨⟨le_rfl, rfl, rfl, by decide, by decide⟩, .inr (by decide)⟩, .inl rfl, fun _ => rfl⟩,
    by decide, by decide⟩

end BigInteger

end RalinkSdk.Crypt
