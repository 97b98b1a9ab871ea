import RalinkSdk.Crypt.BigIntegerInv

/-!
# Sums and differences

`BigInteger_Add` and `BigInteger_Sub`.  A sum of numbers of one sign is exact.  The loop that
subtracts looks at the borrow in a comparison that it makes with the borrow taken off the second
word; some words make it lose the borrow or go on with one that is used up.
-/

namespace RalinkSdk.Crypt

open Lib List Nat

namespace BigInteger

/-! ## Operands -/

variable {bi : BigInteger}

theorem map_operand {v : Nat} (h : bi.Holds v) {n : Nat} (hn : bi.arrayLength ≤ n) :
    (range n).map bi.operand =
      bi.words.map some ++ replicate (n - bi.arrayLength) none := by
  have hlen := h.length_words
  apply ext_getElem
  · simp only [length_map, length_range, length_append, length_replicate, hlen]
    omega
  -- word by word: below the array, or behind it
  intro i hi hi'
  rw [getElem_map, getElem_range, operand]
  by_cases hin : i < bi.arrayLength
  · rw [if_pos hin, getElem_append_left (by simpa [hlen] using hin), getElem_map,
      getElem?_eq_getElem (hin.trans_le h.memory)]
    simp [words]
  · rw [if_neg hin, getElem_append_right (by simpa [hlen] using hin), getElem_replicate]

theorem ofDigits_operand {v : Nat} (h : bi.Holds v) {n : Nat} (hn : bi.arrayLength ≤ n) :
    ofDigits (2 ^ 32) ((range n).map fun i => (bi.operand i).elim 0 BitVec.toNat) = v := by
  have hmap : (range n).map (fun i => (bi.operand i).elim 0 BitVec.toNat) =
      ((range n).map bi.operand).map fun o => o.elim 0 BitVec.toNat := by
    rw [map_map]
    rfl
  rw [hmap, map_operand h hn, map_append, map_map, map_replicate]
  exact (ofDigits_append_replicate_zero _).trans h.magnitude

/-! ## Sums -/

theorem addStep_exact :
    StepExact addStep (fun o => o.1.elim 0 BitVec.toNat + o.2.elim 0 BitVec.toNat) 2
      fun r => r = 0 := by
  rintro o r c hc rfl
  have hword : ∀ o : Option (BitVec 32), o.elim 0 BitVec.toNat < 2 ^ 32 := by
    intro o
    cases o with
    | none => exact Nat.two_pow_pos 32
    | some x => exact x.isLt
  have h1 := hword o.1
  have h2 := hword o.2
  rw [addStep, show (0 : BitVec 32).toNat = 0 from rfl]
  simp only [BitVec.toNat_ofNat]
  omega

variable {a b : BigInteger} {v u : Nat}

theorem add_lt_wordsFor (ha : a.Holds v) (hb : b.Holds u) :
    v + u < 2 ^ (32 * wordsFor (max a.integerLength b.integerLength + 1)) := by
  have hv : v < 256 ^ max a.integerLength b.integerLength :=
    ha.lt.trans_le (Nat.pow_le_pow_right (by decide) (le_max_left _ _))
  have hu : u < 256 ^ max a.integerLength b.integerLength :=
    hb.lt.trans_le (Nat.pow_le_pow_right (by decide) (le_max_right _ _))
  have hpow : 256 ^ (max a.integerLength b.integerLength + 1) ≤
      2 ^ (32 * wordsFor (max a.integerLength b.integerLength + 1)) := by
    rw [pow_words]
    exact Nat.pow_le_pow_right (by decide) (le_wordsFor _)
  rw [pow_succ] at hpow
  omega

/-- **`BigInteger_Add`** of operands of one sign. -/
theorem addSame_spec (ha : a.Holds v) (hb : b.Holds u) (result : BigInteger) :
    ∃ r : BigInteger, addSame a b result = some r.clearHighBits ∧ r.magnitude = v + u ∧
      r.signed = a.signed ∧ 0 < r.arrayLength ∧ r.arrayLength ≤ r.integerArray.length := by
  have hpos : 0 < max a.integerLength b.integerLength + 1 := succ_pos _
  have hfits := add_lt_wordsFor ha hb
  set n := wordsFor (max a.integerLength b.integerLength + 1) with hn
  have hna : a.arrayLength ≤ n := by
    rw [ha.arrayLength, hn, wordsFor_eq, wordsFor_eq]
    omega
  have hnb : b.arrayLength ≤ n := by
    rw [hb.arrayLength, hn, wordsFor_eq, wordsFor_eq]
    omega
  set ops := (range n).map fun i => (a.operand i, b.operand i) with hops
  have hopsLen : ops.length = n := by rw [hops, length_map, length_range]
  have hsum : ofDigits (2 ^ 32) (ops.map fun o =>
      o.1.elim 0 BitVec.toNat + o.2.elim 0 BitVec.toNat) = v + u := by
    rw [ofDigits_map_add, hops, map_map, map_map, ← ofDigits_operand ha hna,
      ← ofDigits_operand hb hnb]
    rfl
  -- the loop runs over the words of the array, which are 0
  have hops0 : ops.length = (replicate n (0 : BitVec 32)).length := by
    rw [hopsLen, length_replicate]
  obtain ⟨out, hrun, houtLen, hout⟩ := chain_sum addStep_exact hops0 (by decide)
    (fun r hr => eq_of_mem_replicate hr)
    (by rwa [hsum, wordsNat_replicate, length_replicate, Nat.zero_add])
  rw [wordsNat_replicate, hsum, Nat.zero_add] at hout
  rw [length_replicate] at houtLen
  have harray : (result.allocSize (max a.integerLength b.integerLength + 1)).integerArray =
      replicate n 0 ++
        replicate (max result.integerArray.length n - n) 0 := by
    rw [allocSize_array _ hpos, replicate_append_replicate, ← hn]
    congr 1
    omega
  have halloc : (result.allocSize (max a.integerLength b.integerLength + 1)).arrayLength = n :=
    allocSize_arrayLength _ hpos
  refine ⟨{ result.allocSize (max a.integerLength b.integerLength + 1) with
    integerArray := out ++ replicate (max result.integerArray.length n - n) 0
    signed := a.signed }, ?_, ?_, rfl, ?_, ?_⟩
  · have hrun' : chain addStep (fun rest _ => some rest) ops (replicate n 0 ++
        replicate (max result.integerArray.length n - n) 0) 0 =
          some (out ++ replicate (max result.integerArray.length n - n) 0) :=
      chain_behind (fun rs c out h => congrArg (Option.map (· ++ _)) h) hrun
    rw [addSame]
    simp only [halloc, harray, ← hops, hrun']
    rfl
  · rw [magnitude, words]
    simp only [halloc, ← houtLen, take_left]
    exact hout
  · simp only [halloc]
    exact wordsFor_pos hpos
  · simp only [halloc, length_append, houtLen]
    exact Nat.le_add_right _ _

/-! ## Differences -/

/-- The loop of `BigInteger_Sub` over the words of the larger number. -/
def subLoop : List (BitVec 32) → List (BitVec 32) → BitVec 32 → List (BitVec 32)
  | _, [], _ => []
  | [], r :: rs, c => (subStep none r c).1 :: subLoop [] rs (subStep none r c).2
  | t :: ts, r :: rs, c =>
    (subStep (some t) r c).1 :: subLoop ts rs (subStep (some t) r c).2

theorem length_subLoop (ts rs : List (BitVec 32)) (c : BitVec 32) :
    (subLoop ts rs c).length = rs.length := by
  induction ts, rs, c using subLoop.induct with
  | case1 => rfl
  | case2 r rs c ih => rw [subLoop, length_cons, length_cons, ih]
  | case3 t ts r rs c ih => rw [subLoop, length_cons, length_cons, ih]

variable {ts rs : List (BitVec 32)}

theorem chain_subStep (c : BitVec 32) (h : ts.length ≤ rs.length) :
    chain subStep (fun rest _ => some rest)
      (ts.map some ++ replicate (rs.length - ts.length) none) rs c =
        some (subLoop ts rs c) := by
  induction ts, rs, c using subLoop.induct with
  | case1 ts c =>
    obtain rfl : ts = [] := length_eq_zero_iff.mp (le_zero.mp h)
    rfl
  | case2 r rs c ih =>
    have hrest := ih (Nat.zero_le _)
    simp only [map_nil, nil_append, length_nil, Nat.sub_zero, length_cons,
      replicate_succ] at hrest ⊢
    rw [chain, hrest]
    rfl
  | case3 t ts r rs c ih =>
    have hrest := ih (le_of_succ_le_succ h)
    rw [map_cons, cons_append, length_cons, length_cons, succ_sub_succ, chain, hrest]
    rfl

/-- Word `i` of a number. -/
def digit (n i : Nat) : Nat := n / 2 ^ (32 * i) % 2 ^ 32

/-- The comparison at word `i` tells what becomes of the borrow that comes in. -/
def BorrowKeptAt (l s i : Nat) : Prop :=
  if s / 2 ^ (32 * i) = 0 then digit l i ≠ 0
  else if digit s i = 0 then digit l i = 0 ∨ digit l i = 2 ^ 32 - 1
  else digit l i ≠ digit s i ∧ digit l i + 1 ≠ digit s i

/-- It does so at each word into which a borrow comes, where the borrow into the lowest word
    is `c`. -/
def KeptFrom (c l s : Nat) : Prop :=
  ∀ i, l % 2 ^ (32 * i) < s % 2 ^ (32 * i) + c → BorrowKeptAt l s i

section

variable {x l s : Nat}

theorem div_pow_succ (hx : x < 2 ^ 32) (i : Nat) :
    (x + 2 ^ 32 * l) / 2 ^ (32 * (i + 1)) = l / 2 ^ (32 * i) := by
  rw [Nat.mul_succ, Nat.add_comm (32 * i), pow_add, ← Nat.div_div_eq_div_mul,
    add_mul_div_left _ _ (Nat.two_pow_pos 32), div_eq_of_lt hx, Nat.zero_add]

theorem mod_pow_succ (hx : x < 2 ^ 32) (i : Nat) :
    (x + 2 ^ 32 * l) % 2 ^ (32 * (i + 1)) = x + 2 ^ 32 * (l % 2 ^ (32 * i)) := by
  rw [Nat.mul_succ, Nat.add_comm (32 * i), pow_add, mod_mul,
    add_mul_mod_self_left, mod_eq_of_lt hx, add_mul_div_left _ _ (Nat.two_pow_pos 32),
    div_eq_of_lt hx, Nat.zero_add]

theorem digit_succ (hx : x < 2 ^ 32) (i : Nat) : digit (x + 2 ^ 32 * l) (i + 1) = digit l i := by
  rw [digit, digit, div_pow_succ hx]

theorem digit_zero (hx : x < 2 ^ 32) : digit (x + 2 ^ 32 * l) 0 = x := by
  rw [digit, Nat.mul_zero, pow_zero, Nat.div_one, add_mul_mod_self_left, mod_eq_of_lt hx]

theorem borrowKeptAt_succ {r t : Nat} (hr : r < 2 ^ 32) (ht : t < 2 ^ 32) (i : Nat) :
    BorrowKeptAt (r + 2 ^ 32 * l) (t + 2 ^ 32 * s) (i + 1) ↔ BorrowKeptAt l s i := by
  rw [BorrowKeptAt, BorrowKeptAt, div_pow_succ ht, digit_succ hr, digit_succ ht]

theorem keptFrom_cons {r t c : Nat} (hr : r < 2 ^ 32) (ht : t < 2 ^ 32) (hc : c ≤ 1) :
    KeptFrom c (r + 2 ^ 32 * l) (t + 2 ^ 32 * s) ↔
      (c = 1 → BorrowKeptAt (r + 2 ^ 32 * l) (t + 2 ^ 32 * s) 0) ∧
        KeptFrom (if r < t + c then 1 else 0) l s := by
  have hborrow : ∀ i, (r + 2 ^ 32 * l) % 2 ^ (32 * (i + 1)) <
      (t + 2 ^ 32 * s) % 2 ^ (32 * (i + 1)) + c ↔
      l % 2 ^ (32 * i) < s % 2 ^ (32 * i) + (if r < t + c then 1 else 0) := by
    intro i
    rw [mod_pow_succ hr, mod_pow_succ ht]
    generalize l % 2 ^ (32 * i) = l'
    generalize s % 2 ^ (32 * i) = s'
    split_ifs <;> omega
  constructor
  · intro h
    refine ⟨fun hone => h 0 ?_, fun i hi => ?_⟩
    · rw [Nat.mul_zero, pow_zero, mod_one, mod_one, hone]
      exact Nat.one_pos
    · exact (borrowKeptAt_succ hr ht i).mp (h (i + 1) ((hborrow i).mpr hi))
  · rintro ⟨hlow, hhigh⟩ i hi
    cases i with
    | zero =>
      rw [Nat.mul_zero, pow_zero, mod_one, mod_one] at hi
      exact hlow (by omega)
    | succ i => exact (borrowKeptAt_succ hr ht i).mpr (hhigh i ((hborrow i).mp hi))

theorem keptFrom_nil {r c : Nat} (hr : r < 2 ^ 32) (hc : c ≤ 1) : KeptFrom c (r + 2 ^ 32 * l) 0 ↔
      (c = 1 → r ≠ 0) ∧ KeptFrom (if r < c then 1 else 0) l 0 := by
  have hcons := keptFrom_cons (l := l) (s := 0) hr (Nat.two_pow_pos 32) hc
  rw [Nat.mul_zero, Nat.zero_add, Nat.zero_add, BorrowKeptAt, if_pos (Nat.zero_div _),
    digit_zero hr] at hcons
  exact hcons

theorem keptFrom_cons_of_ne {r t c : Nat} (hr : r < 2 ^ 32) (ht : t < 2 ^ 32) (hc : c ≤ 1)
    (hne : t + 2 ^ 32 * s ≠ 0) : KeptFrom c (r + 2 ^ 32 * l) (t + 2 ^ 32 * s) ↔
      (c = 1 → if t = 0 then r = 0 ∨ r = 2 ^ 32 - 1 else r ≠ t ∧ r + 1 ≠ t) ∧
        KeptFrom (if r < t + c then 1 else 0) l s := by
  have hcons := keptFrom_cons (l := l) (s := s) hr ht hc
  rwa [BorrowKeptAt, Nat.mul_zero, pow_zero, Nat.div_one, if_neg hne, digit_zero ht,
    digit_zero hr] at hcons

end

/-! ### A step -/

theorem bit_le_one {c : BitVec 32} (hc : c = 0 ∨ c = 1) : c.toNat ≤ 1 := by
  rcases hc with rfl | rfl <;> decide

section

variable {t r c : BitVec 32}

theorem subStep_some_bit (t r c : BitVec 32) :
    (subStep (some t) r c).2 = 0 ∨ (subStep (some t) r c).2 = 1 := by
  rw [subStep]
  split_ifs
  · exact .inl rfl
  · exact .inr rfl

theorem subStep_some_word (hc : c = 0 ∨ c = 1) :
    (subStep (some t) r c).1.toNat + t.toNat + c.toNat =
      r.toNat + 2 ^ 32 * (if r.toNat < t.toNat + c.toNat then 1 else 0) := by
  have hword : (subStep (some t) r c).1 = r - t - c := by
    rw [subStep]
    split_ifs
    · rfl
    · bv_omega
  rw [hword]
  rcases hc with rfl | rfl <;> split_ifs <;> bv_omega

theorem subStep_some_carry (hc : c = 0 ∨ c = 1) :
    (subStep (some t) r c).2.toNat = (if r.toNat < t.toNat + c.toNat then 1 else 0) ↔
      (c.toNat = 1 → if t.toNat = 0 then r.toNat = 0 ∨ r.toNat = 2 ^ 32 - 1
        else r.toNat ≠ t.toNat ∧ r.toNat + 1 ≠ t.toNat) := by
  have ht := t.isLt
  have hr := r.isLt
  rw [subStep]
  rcases hc with rfl | rfl
  · have htest : t - 0 ≤ r ↔ t.toNat ≤ r.toNat := by bv_omega
    simp only [htest, show (0 : BitVec 32).toNat = 0 from rfl]
    split_ifs <;> simp <;> omega
  · have htest : t - 1 ≤ r ↔ (if t.toNat = 0 then r.toNat = 2 ^ 32 - 1 else t.toNat - 1 ≤ r.toNat) := by
      split_ifs with hzero <;> bv_omega
    simp only [htest, show (1 : BitVec 32).toNat = 1 from rfl, true_imp_iff]
    split_ifs <;> simp <;> omega

theorem subStep_some_spurious (hc : c = 0 ∨ c = 1) (h : (subStep (some t) r c).2 = 1)
    (hle : t.toNat + c.toNat ≤ r.toNat) : t = 0 := by
  rw [subStep] at h
  split_ifs at h with htest
  · exact absurd h.symm (show (1 : BitVec 32) ≠ 0 by decide)
  · rcases hc with rfl | rfl <;> bv_omega

theorem subStep_none (hc : c = 0 ∨ c = 1) : ((subStep none r c).2 = 0 ∨ (subStep none r c).2 = 1) ∧
      (subStep none r c).2.toNat = (if r.toNat < c.toNat then 1 else 0) ∧
      (¬r.toNat < c.toNat → (subStep none r c).1.toNat + c.toNat = r.toNat) ∧
      (r.toNat < c.toNat → (subStep none r c).1.toNat = 2 ^ 32 - 2) := by
  rw [subStep]
  rcases hc with rfl | rfl
  · have htest : (0 : BitVec 32) ≤ r := BitVec.le_def.mpr (Nat.zero_le _)
    rw [if_pos htest]
    refine ⟨.inl rfl, rfl, fun _ => ?_, fun h => absurd h (Nat.not_lt_zero _)⟩
    show (r - 0).toNat + 0 = r.toNat
    rw [Nat.add_zero, BitVec.ofNat_eq_ofNat, BitVec.sub_zero]
  · have htest : (1 : BitVec 32) ≤ r ↔ ¬r.toNat < (1 : BitVec 32).toNat := by
      rw [BitVec.le_def, Nat.not_lt]
    by_cases hr : r.toNat < (1 : BitVec 32).toNat
    · rw [if_neg (fun h => htest.mp h hr), if_pos hr]
      exact ⟨.inr rfl, rfl, fun h => absurd hr h, fun _ => rfl⟩
    · rw [if_pos (htest.mpr hr), if_neg hr]
      refine ⟨.inl rfl, rfl, fun _ => ?_, fun h => absurd h hr⟩
      bv_omega

end

/-! ### The loop -/

/-- The high word of a number that is not empty is not 0. -/
def HighWord (ts : List (BitVec 32)) : Prop := ∀ h : ts ≠ [], ts.getLast h ≠ 0

theorem HighWord.tail {t : BitVec 32} {ts : List (BitVec 32)} (h : HighWord (t :: ts)) :
    HighWord ts := fun hne => getLast_cons hne ▸ h (cons_ne_nil _ _)

theorem HighWord.wordsNat_ne_zero {ts : List (BitVec 32)} (h : HighWord ts) (hne : ts ≠ []) :
    wordsNat ts ≠ 0 := fun hzero =>
  h hne (wordsNat_eq_zero.mp hzero _ (getLast_mem hne))

theorem subLoop_mod {c : BitVec 32} (hc : c = 0 ∨ c = 1)
    (hlen : ts.length ≤ rs.length) (h : ts ≠ [] ∨ c = 0) :
    (wordsNat (subLoop ts rs c) + wordsNat ts + c.toNat) % 2 ^ 32 = wordsNat rs % 2 ^ 32 := by
  cases rs with
  | nil =>
    obtain rfl : ts = [] := length_eq_zero_iff.mp (le_zero.mp hlen)
    obtain rfl := h.resolve_left (fun hne => hne rfl)
    rw [subLoop]
    rfl
  | cons r rs =>
    cases ts with
    | nil =>
      obtain rfl := h.resolve_left (fun hne => hne rfl)
      have hword := (subStep_none (r := r) (.inl rfl)).2.2.1 (Nat.not_lt_zero _)
      rw [subLoop, wordsNat_cons, wordsNat_cons, wordsNat_nil]
      omega
    | cons t ts =>
      have hword := subStep_some_word (t := t) (r := r) hc
      rw [subLoop, wordsNat_cons, wordsNat_cons, wordsNat_cons]
      split_ifs at hword <;> omega

/-- **The loop of `BigInteger_Sub`** is right if and only if each borrow is kept: an error at a word
    shows in that word or in the next one. -/
theorem subLoop_eq_iff {c : BitVec 32} (hc : c = 0 ∨ c = 1)
    (hhigh : HighWord ts) (hlen : ts.length ≤ rs.length)
    (hle : wordsNat ts + c.toNat ≤ wordsNat rs) :
    wordsNat (subLoop ts rs c) + wordsNat ts + c.toNat = wordsNat rs ↔
      KeptFrom c.toNat (wordsNat rs) (wordsNat ts) := by
  have hone := bit_le_one hc
  -- along the loop; the number that is taken away is not larger than the rest of the other one
  induction ts, rs, c using subLoop.induct with
  | case1 ts c =>
    obtain rfl : ts = [] := length_eq_zero_iff.mp (le_zero.mp hlen)
    have hzero : c.toNat = 0 := by simpa using hle
    rw [subLoop, hzero]
    exact ⟨fun _ i hi => absurd hi (Nat.not_lt_zero _), fun _ => rfl⟩
  | case2 r rs c ih =>
    obtain ⟨hbit, hcarry, hright, hwrong⟩ := subStep_none (r := r) hc
    rw [wordsNat_nil, wordsNat_cons, Nat.zero_add] at hle
    rw [subLoop, wordsNat_cons, wordsNat_cons, wordsNat_nil, keptFrom_nil r.isLt hone]
    -- a borrow that meets a word 0 leaves a word that is wrong by 1
    by_cases hmeet : r.toNat < c.toNat
    · have hword := hwrong hmeet
      refine iff_of_false (fun h => ?_) (fun h => h.1 (by omega) (by omega))
      omega
    · have hword := hright hmeet
      rw [if_neg hmeet] at hcarry ⊢
      have hih := ih hbit (fun h => absurd rfl h) (Nat.zero_le _)
        (by rw [hcarry, wordsNat_nil]; exact Nat.zero_le _) (by omega)
      rw [hcarry, wordsNat_nil] at hih
      constructor
      · intro h
        exact ⟨fun _ => by omega, hih.mp (by omega)⟩
      · rintro ⟨-, h⟩
        have hrest := hih.mpr h
        omega
  | case3 t ts r rs c ih =>
    have hword := subStep_some_word (t := t) (r := r) hc
    have hcarry := subStep_some_carry (t := t) (r := r) hc
    have hbit := subStep_some_bit t r c
    have hspurious := subStep_some_spurious (t := t) (r := r) hc
    have hne := hhigh.wordsNat_ne_zero (cons_ne_nil _ _)
    rw [wordsNat_cons] at hne
    rw [wordsNat_cons, wordsNat_cons] at hle
    rw [subLoop, wordsNat_cons, wordsNat_cons, wordsNat_cons,
      keptFrom_cons_of_ne r.isLt t.isLt hone hne, ← hcarry]
    set b := if r.toNat < t.toNat + c.toNat then 1 else 0 with hb
    set c' := (subStep (some t) r c).2 with hc'
    set w := (subStep (some t) r c).1
    have hle' : wordsNat ts + b ≤ wordsNat rs := by
      rw [hb]
      split_ifs <;> omega
    by_cases hgood : c'.toNat = b
    · have hih := ih hbit hhigh.tail (le_of_succ_le_succ hlen) (hgood ▸ hle')
        (by rw [hgood, hb]; split_ifs <;> decide)
      rw [hgood] at hih
      constructor
      · intro h
        exact ⟨hgood, hih.mp (by omega)⟩
      · rintro ⟨-, h⟩
        have hrest := hih.mpr h
        omega
    · refine iff_of_false (fun h => ?_) (fun h => hgood h.1)
      -- the next word counts a borrow that it should not, or does not count the one that it should
      have hnext : ts ≠ [] ∨ c' = 0 := by
        rcases hbit with hno | hyes
        · exact .inr hno
        · refine .inl fun hnil => ?_
          have hdue : t.toNat + c.toNat ≤ r.toNat := by
            by_contra hlt
            rw [hb, if_pos (Nat.not_le.mp hlt), hyes] at hgood
            exact hgood rfl
          subst hnil
          exact hhigh (cons_ne_nil _ _) (hspurious hyes hdue)
      have hmod := subLoop_mod hbit (le_of_succ_le_succ hlen) hnext
      have hdiff : wordsNat (subLoop ts rs c') + wordsNat ts + b = wordsNat rs := by omega
      have hb1 : b ≤ 1 := by rw [hb]; split_ifs <;> decide
      have hc1 := bit_le_one hbit
      omega

/-- `BigInteger_Sub` keeps each borrow: at each word into which one comes, the words of the operands
    `l` and `s` pass its test. -/
def BorrowsKept (l s : Nat) : Prop :=
  ∀ i, l % 2 ^ (32 * i) < s % 2 ^ (32 * i) → BorrowKeptAt l s i

instance (l s i : Nat) : Decidable (BorrowKeptAt l s i) := by
  unfold BorrowKeptAt
  infer_instance

theorem borrowsKept_iff {l s n : Nat} (hl : l < 2 ^ (32 * n)) (hs : s < 2 ^ (32 * n)) :
    BorrowsKept l s ↔
      ∀ i < n + 1, l % 2 ^ (32 * i) < s % 2 ^ (32 * i) → BorrowKeptAt l s i := by
  refine ⟨fun h i _ => h i, fun h i hi => ?_⟩
  rcases Nat.lt_or_ge i (n + 1) with hsmall | hlarge
  · exact h i hsmall hi
  -- a borrow out of the last word would be lost
  have hpow : 2 ^ (32 * n) ≤ 2 ^ (32 * i) := Nat.pow_le_pow_right Nat.two_pos (by omega)
  rw [mod_eq_of_lt (hl.trans_le hpow), mod_eq_of_lt (hs.trans_le hpow)] at hi
  have hlast := h n (lt_succ_self n) (by rwa [mod_eq_of_lt hl, mod_eq_of_lt hs])
  rw [BorrowKeptAt, if_pos (div_eq_of_lt hs), digit, div_eq_of_lt hl] at hlast
  exact absurd rfl hlast

theorem lt_pow_log2 {l m : Nat} (h : l ≤ m) : l < 2 ^ (32 * (m.log2 / 32 + 1)) :=
  h.trans_lt (lt_log2_self.trans_le (Nat.pow_le_pow_right Nat.two_pos (by omega)))

instance (l s : Nat) : Decidable (BorrowsKept l s) :=
  decidable_of_iff' _ (borrowsKept_iff (lt_pow_log2 (le_max_left l s)) (lt_pow_log2 (le_max_right l s)))

theorem Exact.highWord {v : Nat} (h : bi.Exact v) (hv : v ≠ 0) : HighWord bi.words := by
  intro hne hlast
  have hsplit := dropLast_append_getLast hne
  have hlen := congrArg List.length hsplit
  have hvalue := congrArg wordsNat hsplit
  rw [hlast, wordsNat_append, wordsNat_cons, wordsNat_nil, show (0 : BitVec 32).toNat = 0 from rfl,
    Nat.mul_zero, Nat.add_zero, Nat.mul_zero, Nat.add_zero] at hvalue
  rw [length_append, length_singleton, h.length_words, h.arrayLength, wordsFor_eq] at hlen
  have hlow := wordsNat_lt bi.words.dropLast
  have hpow : 2 ^ (32 * bi.words.dropLast.length) ≤ 256 ^ (bi.integerLength - 1) := by
    rw [pow_words]
    exact Nat.pow_le_pow_right (by decide) (by omega)
  have hmagnitude : wordsNat bi.words = v := h.magnitude
  rcases h.le with hone | hle
  · rw [hone, Nat.sub_self, pow_zero] at hpow
    omega
  · omega

theorem Exact.words_zero (h : bi.Exact 0) : bi.words = [0] := by
  have hone : bi.integerLength = 1 := h.le.resolve_right fun hle =>
    absurd hle (Nat.not_le.mpr (Nat.pow_pos (by decide)))
  have hlen : bi.words.length = 1 := by
    rw [h.length_words, h.arrayLength, hone]
    rfl
  obtain ⟨x, hx⟩ := length_eq_one_iff.mp hlen
  have hzero := wordsNat_eq_zero.mp h.magnitude x (hx ▸ mem_singleton_self x)
  rw [hx, hzero]

theorem Exact.arrayLength_le (ha : a.Exact v) (hb : b.Exact u)
    (h : v ≤ u) : a.arrayLength ≤ b.arrayLength := by
  have hle := ha.integerLength_mono hb h
  rw [ha.arrayLength, hb.arrayLength, wordsFor_eq, wordsFor_eq]
  omega

theorem subLoop_nil (rs : List (BitVec 32)) : subLoop [] rs 0 = rs := by
  induction rs with
  | nil => rfl
  | cons r rs ih =>
    have hstep : subStep none r 0 = (r, 0) := by
      rw [subStep, if_pos (BitVec.le_def.mpr (Nat.zero_le _)), BitVec.ofNat_eq_ofNat, BitVec.sub_zero]
    rw [subLoop, hstep, ih]

section

variable {large small : BigInteger} {l s : Nat} (hl : large.Exact l) (hs : small.Exact s)
  (hle : s ≤ l)

include hl hs hle

theorem subLoop_words_iff :
    wordsNat (subLoop small.words large.words 0) + s = l ↔ BorrowsKept l s := by
  have hlen : small.words.length ≤ large.words.length := by
    rw [hs.length_words, hl.length_words]
    exact hs.arrayLength_le hl hle
  have hlv : wordsNat large.words = l := hl.magnitude
  have hsv : wordsNat small.words = s := hs.magnitude
  by_cases hzero : s = 0
  · subst hzero
    have hnone : BorrowsKept l 0 := fun i hi => absurd hi (by simp)
    obtain ⟨r, rs, hwords⟩ := exists_cons_of_ne_nil
      (ne_nil_of_length_pos (hl.arrayLength_pos.trans_eq hl.length_words.symm))
    have hstep : subStep (some 0) r 0 = (r, 0) := by
      rw [subStep, if_pos (BitVec.le_def.mpr (Nat.zero_le _)), BitVec.ofNat_eq_ofNat,
        BitVec.sub_zero, BitVec.sub_zero]
    rw [hs.words_zero, hwords, subLoop, hstep, subLoop_nil, ← hwords, hlv]
    exact iff_of_true rfl hnone
  · have hloop := subLoop_eq_iff (.inl rfl) (hs.highWord hzero) hlen
      (by rw [hlv, hsv]; exact hle)
    rwa [hlv, hsv] at hloop

theorem chain_difference (k : Nat) :
    chain subStep (fun rest _ => some rest) ((range large.arrayLength).map small.operand)
      (large.words ++ replicate k 0) 0 =
        some (subLoop small.words large.words 0 ++ replicate k 0) := by
  have hshort := hs.arrayLength_le hl hle
  have hlen : small.words.length ≤ large.words.length := by
    rwa [hs.length_words, hl.length_words]
  have hops := map_operand hs.toHolds hshort
  rw [← hl.length_words, ← hs.length_words] at hops
  rw [← hl.length_words, hops]
  exact chain_behind (fun rs c out h => congrArg (Option.map (· ++ _)) h) (chain_subStep 0 hlen)

end

/-- What `BigInteger_Sub` leaves before the high bits are cleared. -/
def difference (large small : BigInteger) (k : Nat) (sign : Int) : BigInteger where
  integerArray := subLoop small.words large.words 0 ++ replicate k 0
  arrayLength := large.arrayLength
  integerLength := large.integerLength
  signed := sign

theorem difference_spec {large small : BigInteger} {l s : Nat} (hl : large.Exact l)
    (hs : small.Exact s) (hle : s ≤ l) (k : Nat) (sign : Int) :
    ((difference large small k sign).magnitude + s = l ↔ BorrowsKept l s) ∧
      0 < (difference large small k sign).arrayLength ∧
      (difference large small k sign).arrayLength ≤
        (difference large small k sign).integerArray.length := by
  have hlen : (subLoop small.words large.words 0).length = large.arrayLength := by
    rw [length_subLoop, hl.length_words]
  refine ⟨?_, hl.arrayLength_pos, ?_⟩
  · rw [magnitude, words, difference, ← hlen, take_left]
    exact subLoop_words_iff hl hs hle
  · rw [difference, length_append, hlen]
    exact Nat.le_add_right _ _

/-- **`BigInteger_Sub`** of operands of one sign that are not equal. -/
theorem subSame_spec (ha : a.Exact v) (hb : b.Exact u) (hne : v ≠ u) (result : BigInteger) :
    ∃ r : BigInteger, subSame a b result = some r.clearHighBits ∧
      (r.magnitude + min v u = max v u ↔ BorrowsKept (max v u) (min v u)) ∧
      (r.signed = if a.signed = 1 ∧ b.signed = 1 ∧ v < u ∨ a.signed = -1 ∧ b.signed = -1 ∧ u < v
        then -1 else if u < v then a.signed else b.signed) ∧
      0 < r.arrayLength ∧ r.arrayLength ≤ r.integerArray.length := by
  have hcmp := unsignedCompare_eq ha hb
  rcases lt_or_gt_of_ne hne with hlt | hgt
  · rw [Nat.compare_eq_lt.mpr hlt] at hcmp
    obtain ⟨large, hcopyL, hlarge, hsignL⟩ := copy_exact hb init
    obtain ⟨small, hcopyS, hsmall, -⟩ := copy_exact ha init
    obtain ⟨hiff, hpos, hmem⟩ := difference_spec hlarge hsmall hlt.le
      (max result.integerArray.length large.arrayLength - large.arrayLength)
      (if a.signed = 1 ∧ b.signed = 1 ∧ v < u ∨ a.signed = -1 ∧ b.signed = -1 ∧ u < v
        then -1 else b.signed)
    refine ⟨_, ?_, by rwa [min_eq_left hlt.le, max_eq_right hlt.le], ?_, hpos, hmem⟩
    · simp only [subSame, hcmp, reduceCtorEq, if_false, hcopyL, hcopyS, Option.bind_eq_bind,
        Option.bind_some, copy_eq hlarge.toHolds, chain_difference hlarge hsmall hlt.le, hsignL,
        hlt, hlt.le.not_gt, and_true, and_false, or_false]
      rfl
    · rw [if_neg hlt.le.not_gt]
      rfl
  · rw [Nat.compare_eq_gt.mpr hgt] at hcmp
    obtain ⟨large, hcopyL, hlarge, hsignL⟩ := copy_exact ha init
    obtain ⟨small, hcopyS, hsmall, -⟩ := copy_exact hb init
    obtain ⟨hiff, hpos, hmem⟩ := difference_spec hlarge hsmall hgt.le
      (max result.integerArray.length large.arrayLength - large.arrayLength)
      (if a.signed = 1 ∧ b.signed = 1 ∧ v < u ∨ a.signed = -1 ∧ b.signed = -1 ∧ u < v
        then -1 else a.signed)
    refine ⟨_, ?_, by rwa [min_eq_right hgt.le, max_eq_left hgt.le], ?_, hpos, hmem⟩
    · simp only [subSame, hcmp, if_true, hcopyL, hcopyS, Option.bind_eq_bind,
        Option.bind_some, copy_eq hlarge.toHolds, chain_difference hlarge hsmall hgt.le, hsignL,
        hgt, hgt.le.not_gt, and_true, and_false, false_or, reduceCtorEq]
      rfl
    · rw [if_pos hgt]
      rfl

/-! ## The operations -/

theorem returns_allocSize_one (result : BigInteger) :
    Returns (some (result.allocSize 1)) 0 ↔ result.signed = 1 := by
  have hexact := allocSize_one_exact result
  have hkept : ¬(result.integerArray ≠ [] ∧ result.integerArray.length < wordsFor 1) := by
    rintro ⟨hne, hlt⟩
    have hpos := length_pos_iff.mpr hne
    rw [wordsFor_eq] at hlt
    omega
  have hsigned : (result.allocSize 1).signed = result.signed := by
    rw [allocSize_signed _ Nat.one_pos, if_neg hkept]
  constructor
  · rintro ⟨r, hr, -, hnormal⟩
    obtain rfl := Option.some.inj hr
    rw [← hsigned]
    exact hnormal.zero hexact.magnitude
  · intro hone
    refine ⟨_, rfl, ?_, ?_, ?_, fun _ => hsigned.trans hone⟩
    · rw [value, hexact.magnitude, cast_zero, mul_zero]
    · exact hexact.magnitude.symm ▸ hexact
    · exact .inl (hsigned.trans hone)

theorem Exact.with_signed {v : Nat} (h : bi.Exact v) (sign : Int) :
    { bi with signed := sign }.Exact v :=
  ⟨⟨h.memory, h.magnitude, h.arrayLength, h.length_pos, h.lt⟩, h.le⟩

theorem subSame_positive (ha : a.Exact v) (hb : b.Exact u)
    (hsa : a.signed = 1) (hsb : b.signed = 1) (hne : v ≠ u) (result : BigInteger) :
    Returns (subSame a b result) (v - u) ↔ BorrowsKept (max v u) (min v u) := by
  obtain ⟨r, hr, hiff, hsigned, hpos, hmem⟩ := subSame_spec ha hb hne result
  rw [hsa, hsb] at hsigned
  rw [← hiff]
  rcases lt_or_gt_of_ne hne with hlt | hgt
  · rw [if_pos (.inl ⟨rfl, rfl, hlt⟩)] at hsigned
    rw [returns_clearHighBits hr (.inr hsigned) hpos hmem, value, hsigned, min_eq_left hlt.le,
      max_eq_right hlt.le]
    omega
  · rw [if_neg (by omega), if_pos hgt] at hsigned
    rw [returns_clearHighBits hr (.inl hsigned) hpos hmem, value, hsigned, min_eq_right hgt.le,
      max_eq_left hgt.le]
    omega

theorem subSame_negative (ha : a.Exact v) (hb : b.Exact u)
    (hsa : a.signed = -1) (hsb : b.signed = -1) (hne : v ≠ u) (result : BigInteger) :
    Returns (subSame a b result) (u - v) ↔ ¬v < u ∧ BorrowsKept (max v u) (min v u) := by
  obtain ⟨r, hr, hiff, hsigned, hpos, hmem⟩ := subSame_spec ha hb hne result
  rw [hsa, hsb] at hsigned
  have hnegative : r.signed = -1 := by
    rw [hsigned]
    split_ifs <;> rfl
  rw [returns_clearHighBits hr (.inr hnegative) hpos hmem, value, hnegative, ← hiff]
  rcases lt_or_gt_of_ne hne with hlt | hgt
  · rw [min_eq_left hlt.le, max_eq_right hlt.le]
    omega
  · rw [min_eq_right hgt.le, max_eq_left hgt.le]
    omega

theorem Normal.positive (h : bi.Normal) : { bi with signed := 1 }.Normal :=
  ⟨h.exact.with_signed 1, .inl rfl, fun _ => rfl⟩

theorem Normal.negative (h : bi.Normal) (hne : bi.magnitude ≠ 0) :
    { bi with signed := -1 }.Normal :=
  ⟨h.exact.with_signed (-1), .inr rfl, fun hzero => absurd hzero hne⟩

theorem Normal.magnitude_of_value (h : bi.Normal) {v : Nat}
    (hvalue : bi.value = v) : bi.magnitude = v := by
  rw [value] at hvalue
  rcases h.signed with hs | hs
  · rw [hs] at hvalue
    omega
  · have hne : bi.magnitude ≠ 0 := fun hzero => absurd (hs.symm.trans (h.zero hzero)) (by decide)
    rw [hs] at hvalue
    omega

section

variable {a b : BigInteger} (ha : a.Normal) (hb : b.Normal) (result : BigInteger)

include ha hb

theorem addSame_returns :
    Returns (addSame a b result) (a.signed * (a.magnitude + b.magnitude)) := by
  obtain ⟨r, hr, hmag, hsigned, hpos, hmem⟩ :=
    addSame_spec ha.exact.toHolds hb.exact.toHolds result
  refine (returns_clearHighBits hr (hsigned ▸ ha.signed) hpos hmem _).mpr ?_
  rw [value, hsigned, hmag, cast_add]

/-- **`BigInteger_Add`** is right for operands of one sign, and else if it subtracts right. -/
theorem add_returns_iff : Returns (add a b result) (a.value + b.value) ↔
      a.signed = b.signed ∨
        if a.magnitude = b.magnitude then result.signed = 1
        else BorrowsKept (max a.magnitude b.magnitude) (min a.magnitude b.magnitude) := by
  have hcmp := unsignedCompare_eq ha.exact hb.exact
  have hnil : ¬(a.integerArray = [] ∨ b.integerArray = []) := by
    rintro (h | h)
    · exact ha.exact.array_ne_nil h
    · exact hb.exact.array_ne_nil h
  rw [add, if_neg hnil, hcmp]
  by_cases hsame : a.signed = b.signed
  · have hprod : 0 < a.signed * b.signed := by
      rw [← hsame]
      rcases ha.signed with h | h <;> rw [h] <;> decide
    rw [if_neg (fun h => absurd h.2 (not_lt.mpr hprod.le)), if_pos hprod]
    have hvalue : a.value + b.value = a.signed * (a.magnitude + b.magnitude) := by
      rw [value, value, ← hsame]
      ring
    rw [hvalue]
    exact iff_of_true (addSame_returns ha hb result) (.inl hsame)
  · rw [or_iff_right hsame]
    have hopp : (a.signed = 1 ∧ b.signed = -1) ∨ (a.signed = -1 ∧ b.signed = 1) := by
      rcases ha.signed with h | h <;> rcases hb.signed with h' | h'
      · exact absurd (h.trans h'.symm) hsame
      · exact .inl ⟨h, h'⟩
      · exact .inr ⟨h, h'⟩
      · exact absurd (h.trans h'.symm) hsame
    have hprod : a.signed * b.signed = -1 := by
      rcases hopp with ⟨h, h'⟩ | ⟨h, h'⟩ <;> rw [h, h'] <;> rfl
    by_cases heq : a.magnitude = b.magnitude
    · have hzero : a.value + b.value = 0 := by
        rw [value, value, heq]
        rcases hopp with ⟨h, h'⟩ | ⟨h, h'⟩ <;> rw [h, h'] <;> ring
      rw [if_pos ⟨Nat.compare_eq_eq.mpr heq, by rw [hprod]; decide⟩, if_pos heq, hzero]
      exact returns_allocSize_one result
    · rw [if_neg (fun h => heq (Nat.compare_eq_eq.mp h.1)), if_neg (by rw [hprod]; decide),
        if_neg heq]
      rcases hopp with ⟨hsa, hsb⟩ | ⟨hsa, hsb⟩
      · rw [if_pos ⟨hsa, hsb⟩]
        have hvalue : a.value + b.value = a.magnitude - b.magnitude := by
          rw [value, value, hsa, hsb]
          ring
        rw [hvalue]
        exact subSame_positive ha.exact (hb.exact.with_signed 1) hsa rfl heq result
      · rw [if_neg (fun h => absurd (hsa.symm.trans h.1) (by decide)), if_pos ⟨hsa, hsb⟩]
        have hvalue : a.value + b.value = b.magnitude - a.magnitude := by
          rw [value, value, hsa, hsb]
          ring
        rw [hvalue, max_comm, min_comm]
        exact subSame_positive hb.exact (ha.exact.with_signed 1) hsb rfl (Ne.symm heq) result

/-- **`BigInteger_Sub`** is right for operands of different signs.  Of two negative ones the first
    must be the larger. -/
theorem sub_returns_iff : Returns (sub a b result) (a.value - b.value) ↔
      a.signed ≠ b.signed ∨
        if a.magnitude = b.magnitude then result.signed = 1
        else ¬(a.signed = -1 ∧ a.magnitude < b.magnitude) ∧
          BorrowsKept (max a.magnitude b.magnitude) (min a.magnitude b.magnitude) := by
  have hcmp := unsignedCompare_eq ha.exact hb.exact
  have hnil : ¬(a.integerArray = [] ∨ b.integerArray = []) := by
    rintro (h | h)
    · exact ha.exact.array_ne_nil h
    · exact hb.exact.array_ne_nil h
  rw [sub, if_neg hnil, hcmp]
  by_cases hsame : a.signed = b.signed
  · rw [or_iff_right (not_not.mpr hsame)]
    have hprod : 0 < a.signed * b.signed := by
      rw [← hsame]
      rcases ha.signed with h | h <;> rw [h] <;> decide
    by_cases heq : a.magnitude = b.magnitude
    · have hzero : a.value - b.value = 0 := by rw [value, value, heq, hsame, sub_self]
      rw [if_pos ⟨Nat.compare_eq_eq.mpr heq, hprod⟩, if_pos heq, hzero]
      exact returns_allocSize_one result
    · rw [if_neg (fun h => heq (Nat.compare_eq_eq.mp h.1)), if_pos hprod, if_neg heq]
      rcases ha.signed with hsa | hsa
      · have hvalue : a.value - b.value = a.magnitude - b.magnitude := by
          rw [value, value, ← hsame, hsa]
          ring
        rw [hvalue, hsa, subSame_positive ha.exact hb.exact hsa (hsame ▸ hsa) heq]
        exact (and_iff_right (fun h => absurd h.1 (by decide))).symm
      · have hvalue : a.value - b.value = b.magnitude - a.magnitude := by
          rw [value, value, ← hsame, hsa]
          ring
        rw [hvalue, subSame_negative ha.exact hb.exact hsa (hsame ▸ hsa) heq, hsa]
        simp only [true_and]
  · refine iff_of_true ?_ (.inl hsame)
    rcases ha.signed with hsa | hsa <;> rcases hb.signed with hsb | hsb
    · exact absurd (hsa.trans hsb.symm) hsame
    · have hprod : a.signed * b.signed = -1 := by rw [hsa, hsb]; rfl
      have hvalue : a.value - b.value = a.signed * (a.magnitude + b.magnitude) := by
        rw [value, value, hsa, hsb]
        ring
      rw [hprod, if_neg (fun h => absurd h.2 (by decide)), if_neg (by decide), if_pos ⟨hsa, hsb⟩,
        hvalue]
      exact addSame_returns ha hb.positive result
    · have hprod : a.signed * b.signed = -1 := by rw [hsa, hsb]; rfl
      rw [hprod, if_neg (fun h => absurd h.2 (by decide)), if_neg (by decide),
        if_neg (fun h => absurd (hsa.symm.trans h.1) (by decide)), if_pos ⟨hsa, hsb⟩]
      obtain ⟨r, hr, hvalue, hnormal⟩ := addSame_returns ha.positive hb result
      have hmag : r.magnitude = a.magnitude + b.magnitude :=
        hnormal.magnitude_of_value (by rw [hvalue, one_mul, cast_add]; rfl)
      have hne : a.magnitude ≠ 0 := fun hzero => absurd (hsa.symm.trans (ha.zero hzero)) (by decide)
      refine ⟨_, congrArg _ hr, ?_, hnormal.negative (by omega)⟩
      show -1 * (r.magnitude : Int) = a.value - b.value
      rw [hmag, value, value, hsa, hsb, cast_add]
      ring
    · exact absurd (hsa.trans hsb.symm) hsame

/-- **Sums and differences**: when `BigInteger_Add` and `BigInteger_Sub` return the sum and the
    difference, normalised. -/
theorem add_sub_returns_iff : (Returns (add a b result) (a.value + b.value) ↔
      a.signed = b.signed ∨
        if a.magnitude = b.magnitude then result.signed = 1
        else BorrowsKept (max a.magnitude b.magnitude) (min a.magnitude b.magnitude)) ∧
    (Returns (sub a b result) (a.value - b.value) ↔
      a.signed ≠ b.signed ∨
        if a.magnitude = b.magnitude then result.signed = 1
        else ¬(a.signed = -1 ∧ a.magnitude < b.magnitude) ∧
          BorrowsKept (max a.magnitude b.magnitude) (min a.magnitude b.magnitude)) :=
  ⟨add_returns_iff ha hb result, sub_returns_iff ha hb result⟩

end

/-- 5 and 5, into an object just initialized. -/
theorem add_sub_returns_iff_five : Returns (add ⟨[5], 1, 1, 1⟩ ⟨[5], 1, 1, 1⟩ init) 10 ∧
      Returns (sub ⟨[5], 1, 1, 1⟩ ⟨[5], 1, 1, 1⟩ init) 0 :=
  have hfive : Normal ⟨[5], 1, 1, 1⟩ :=
    ⟨⟨⟨le_rfl, rfl, rfl, Nat.one_pos, by decide⟩, .inl rfl⟩, .inl rfl, fun _ => rfl⟩
  ⟨(add_sub_returns_iff hfive hfive init).1.mpr (.inl rfl),
    (add_sub_returns_iff hfive hfive init).2.mpr (.inr rfl)⟩

/-- The words 0, 5 and 1 less the words 1 and 5: at the second word the borrow is lost.  And the
    difference of -5 and -7 comes out negative. -/
theorem add_sub_borrow_lost :
    ¬Returns (add ⟨[0, 5, 1], 3, 9, 1⟩ ⟨[1, 5], 2, 5, -1⟩ init) (2 ^ 64 - 1) ∧
      ¬Returns (sub ⟨[0, 5, 1], 3, 9, 1⟩ ⟨[1, 5], 2, 5, 1⟩ init) (2 ^ 64 - 1) ∧
      ¬Returns (sub ⟨[5], 1, 1, -1⟩ ⟨[7], 1, 1, -1⟩ init) 2 := by
  have hadd : add ⟨[0, 5, 1], 3, 9, 1⟩ ⟨[1, 5], 2, 5, -1⟩ init =
      some ⟨[0xFFFFFFFF, 0xFFFFFFFF, 1], 3, 9, 1⟩ := by decide
  have hsub : sub ⟨[0, 5, 1], 3, 9, 1⟩ ⟨[1, 5], 2, 5, 1⟩ init =
      some ⟨[0xFFFFFFFF, 0xFFFFFFFF, 1], 3, 9, 1⟩ := by decide
  have hneg : sub ⟨[5], 1, 1, -1⟩ ⟨[7], 1, 1, -1⟩ init = some ⟨[2], 1, 1, -1⟩ := by decide
  exact ⟨not_returns hadd (by decide), not_returns hsub (by decide), not_returns hneg (by decide)⟩

end BigInteger

end RalinkSdk.Crypt
