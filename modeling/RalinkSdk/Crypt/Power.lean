import RalinkSdk.Lib.Power
import RalinkSdk.Crypt.BigIntegerDiv
import RalinkSdk.Crypt.Montgomery

/-!
# Powers modulo the prime of WPS

`BigInteger_Montgomery_ExpMod` keeps each number multiplied with `2^1536`, and goes through the
exponent four bits at a time from the high end.  It returns a power if none of its squares loses a
carry and none of its reductions a borrow; the exponent is the one that `BigInteger_GetByteValue`
reads.
-/

namespace RalinkSdk.Crypt

open Lib List Option Function Nat

namespace BigInteger

/-! ## Montgomery's form -/

/-- A number as the exponentiation keeps it. -/
def mont (y : Nat) : Nat := y * wpsR % wpsPrime

theorem wpsPrime_pos : 0 < wpsPrime := (Nat.pow_pos (by decide)).trans_le wpsPrime_bounds.1

theorem wpsPrime_lt_wpsR : wpsPrime < wpsR := by
  rw [wpsR_eq, pow_words]
  exact wpsPrime_bounds.2

theorem mont_lt (y : Nat) : mont y < wpsPrime := mod_lt _ wpsPrime_pos

theorem mont_modEq (y : Nat) : mont y ≡ y * wpsR [MOD wpsPrime] := mod_modEq _ _

theorem mont_congr {y z : Nat} (h : y ≡ z [MOD wpsPrime]) : mont y = mont z := h.mul_right wpsR

theorem mont_mul (y z : Nat) : mont (y * z) * wpsR ≡ mont y * mont z [MOD wpsPrime] := by
  have hleft := (mont_modEq (y * z)).mul_right wpsR
  have hright := (mont_modEq y).mul (mont_modEq z)
  have heq : y * z * wpsR * wpsR = y * wpsR * (z * wpsR) := by ring
  rw [heq] at hleft
  exact hleft.trans hright.symm

theorem mont_mul_lt (y z : Nat) : mont y * mont z < wpsPrime * wpsR :=
  Nat.mul_lt_mul'' (mont_lt y) ((mont_lt z).trans wpsPrime_lt_wpsR)

/-! ## What the operations keep -/

/-- The reduction of `v` to the residue `c` loses no borrow. -/
def ReductionKept (v c : Nat) : Prop := v ≤ c * wpsR ∨ BorrowsKept (wpsPrime + c) wpsPrime

/-- The square of a number loses no carry, and its reduction no borrow. -/
def SquareKept (y : Nat) : Prop :=
  DoubledFrom 0 (crossSum (toWords 32 48 (mont y))) ∧
    ReductionKept (mont y * mont y) (mont (y * y))

/-- The reduction of a product loses no borrow. -/
def MulKept (y z : Nat) : Prop := ReductionKept (mont y * mont z) (mont (y * z))

instance (v c : Nat) : Decidable (ReductionKept v c) := inferInstanceAs (Decidable (_ ∨ _))

instance (y : Nat) : Decidable (SquareKept y) := inferInstanceAs (Decidable (_ ∧ _))

instance (y z : Nat) : Decidable (MulKept y z) := inferInstanceAs (Decidable (ReductionKept _ _))

/-! ## One operation -/

theorem rowSum_zeros (k : Nat) : rowSum (replicate k 0) = 0 := by
  induction k with
  | zero => rfl
  | succ k ih =>
    rw [replicate_succ, rowSum, ih, wordsNat_replicate, Nat.mul_zero, Nat.mul_zero]

theorem rowSum_append_zeros (ws : List (BitVec 32)) (k : Nat) :
    rowSum (ws ++ replicate k 0) = rowSum ws := by
  induction ws with
  | nil => exact rowSum_zeros k
  | cons w ws ih =>
    rw [cons_append, rowSum, rowSum, ih, wordsNat_append, wordsNat_replicate, Nat.mul_zero,
      Nat.add_zero]

theorem Holds.crossSum_eq {x : BigInteger} {v n : Nat} (hx : x.Holds v) (hn : x.arrayLength ≤ n) :
    crossSum (toWords 32 n v) = crossSum x.words := by
  have hlen := hx.length_words
  have hwords : toWords 32 n v = x.words ++ replicate (n - x.arrayLength) 0 := by
    apply eq_of_wordsNat_eq
    · rw [length_toWords, length_append, hlen, length_replicate]
      omega
    · have hvalue : wordsNat x.words = v := hx.magnitude
      have hlt : v < 2 ^ (32 * n) := by
        rw [← hvalue]
        refine (wordsNat_lt x.words).trans_le (Nat.pow_le_pow_right Nat.two_pos ?_)
        rw [hlen]
        exact Nat.mul_le_mul_left 32 hn
      rw [wordsNat_toWords, mod_eq_of_lt hlt, wordsNat_append, wordsNat_replicate, Nat.mul_zero,
        Nat.add_zero, hvalue]
  rw [hwords, crossSum, crossSum, rowSum_append_zeros]

theorem length_copy {bi target r : BigInteger} (h : copy bi target = some r) :
    target.integerArray.length ≤ r.integerArray.length := by
  have halloc : target.integerArray.length ≤
      (target.allocSize bi.integerLength).integerArray.length := by
    rcases Nat.eq_zero_or_pos bi.integerLength with hzero | hpos
    · rw [hzero]
      rfl
    · rw [allocSize_length _ hpos]
      exact le_max_left _ _
  simp only [copy] at h
  split_ifs at h with hshort
  obtain rfl := some.inj h
  rw [length_append, length_take_of_le (not_lt.mp hshort), length_drop]
  omega

theorem montgomeryReduction_keeps {a p result r : BigInteger} {bitsOfR : Nat}
    {scratch scratch' : Scratch}
    (h : montgomeryReduction a p result bitsOfR scratch = some (r, scratch')) :
    result.integerArray.length ≤ r.integerArray.length ∧ scratch'.s = scratch.s := by
  obtain ⟨left, hleft, h⟩ := bind_eq_some_iff.mp h
  have hloops : result.integerArray.length ≤ left.integerArray.length := by
    obtain ⟨start, hstart, hleft⟩ := bind_eq_some_iff.mp hleft
    obtain ⟨array, hloop, hleft⟩ := bind_eq_some_iff.mp hleft
    dsimp only at hleft
    split_ifs at hleft with hroom
    · cases hleft
    obtain rfl := some.inj hleft
    have hcopy := length_copy hstart
    have halloc : result.integerArray.length ≤
        (result.allocSize (a.integerLength + p.integerLength + 20)).integerArray.length := by
      rw [allocSize_length _ (succ_pos _)]
      exact le_max_left _ _
    have hrun := length_reductionLoop hloop
    rw [clearHighBits_array]
    simp only [length_append, length_take, length_drop]
    omega
  split_ifs at h with hlt
  · obtain ⟨rfl, rfl⟩ := Prod.mk.inj (some.inj h)
    rw [clearHighBits_array]
    exact ⟨hloops, rfl⟩
  · obtain ⟨u, -, h⟩ := bind_eq_some_iff.mp h
    obtain ⟨copied, hcopied, h⟩ := bind_eq_some_iff.mp h
    obtain ⟨rfl, rfl⟩ := Prod.mk.inj (some.inj h)
    rw [clearHighBits_array]
    exact ⟨hloops.trans (length_copy hcopied), rfl⟩

/-- **A reduction** that loses no borrow. -/
theorem montgomeryReduction_kept {a : BigInteger} {v c : Nat} (ha : a.Holds v) (hsa : a.signed = 1)
    (hv : v < wpsPrime * wpsR) (hc : c < wpsPrime) (hmod : c * wpsR ≡ v [MOD wpsPrime])
    (hkept : ReductionKept v c) (result : BigInteger) (scratch : Scratch)
    (hroom : 97 ≤ result.integerArray.length ∨ 173 ≤ a.integerLength) :
    ∃ r scratch', montgomeryReduction a wpsP result 1537 scratch = some (r, scratch') ∧
      r.Exact c ∧ r.signed = 1 ∧ result.integerArray.length ≤ r.integerArray.length ∧
        scratch'.s = scratch.s := by
  have hlong : 97 ≤ max result.integerArray.length (wordsFor (a.integerLength + 212)) := by
    rw [wordsFor_eq]
    omega
  obtain ⟨r, scratch', hrun, hiff⟩ := montgomeryReduction_spec ha hsa wpsP_exact wpsP_signed hv hc
    hmod result scratch hlong
  obtain ⟨y, hy, hvalue, hnormal⟩ := hiff.mpr hkept
  obtain rfl := some.inj hy
  have hsigned := hnormal.positive_of_nonneg (hvalue ▸ Int.natCast_nonneg c)
  obtain ⟨hmemory, hscratch⟩ := montgomeryReduction_keeps hrun
  exact ⟨r, scratch', hrun, hnormal.magnitude_of_value hvalue ▸ hnormal.exact, hsigned, hmemory,
    hscratch⟩

theorem Exact.lt_integerLength {bi : BigInteger} {v n : Nat} (h : bi.Exact v) (hle : 256 ^ n ≤ v) :
    n < bi.integerLength :=
  (Nat.pow_lt_pow_iff_right (by decide : 1 < 256)).mp (hle.trans_lt h.lt)

end BigInteger

open BigInteger

/-! ## The loop over the exponent -/

/-- The state between two windows, where the power so far is `y`. -/
structure Exponentiation.At (s : Exponentiation) (y : Nat) : Prop where
  exact : s.x.Exact (mont y)
  signed : s.x.signed = 1
  room : 97 ≤ s.x.integerArray.length
  temp1 : s.temp1.signed = 1
  scratch : s.scratch.s.signed = 1

variable {s : Exponentiation} {y : Nat}

theorem Exponentiation.At.congr {z : Nat} (h : s.At y) (hyz : y ≡ z [MOD wpsPrime]) : s.At z :=
  ⟨mont_congr hyz ▸ h.exact, h.signed, h.room, h.temp1, h.scratch⟩

theorem Exponentiation.At.arrayLength_le (h : s.At y) : s.x.arrayLength ≤ 48 := by
  have hlen := h.exact.integerLength_le (n := 192) (by decide) ((mont_lt y).trans wpsPrime_bounds.2)
  rw [h.exact.arrayLength, wordsFor_eq]
  omega

/-- **`pBI_X` is squared.** -/
theorem squareX_at (h : s.At y) (hkept : SquareKept y) :
    ∃ s', squareX wpsP 1537 s = some s' ∧ s'.At (y * y) := by
  obtain ⟨t, scratch, hsquare, hscratch, hnormal, hpositive, hiff⟩ :=
    square_spec h.exact.toHolds s.temp1 s.scratch h.temp1 h.scratch
  have hvalue : t.magnitude = mont y * mont y := by
    apply hiff.mpr
    rw [← h.exact.toHolds.crossSum_eq h.arrayLength_le]
    exact hkept.1
  obtain ⟨r, scratch', hreduce, hexact, hsigned, hmemory, hs⟩ :=
    montgomeryReduction_kept (hvalue ▸ hnormal.exact.toHolds) hpositive (mont_mul_lt y y)
      (mont_lt _) (mont_mul y y) hkept.2 s.x scratch (.inl h.room)
  refine ⟨⟨r, t, scratch'⟩, ?_, hexact, hsigned, h.room.trans hmemory, hpositive, hs ▸ hscratch⟩
  simp only [squareX, hsquare, bind_eq_bind, bind_some, hreduce]

/-- **`pBI_X` is multiplied** with the number `z`. -/
theorem mulX_at {a : BigInteger} {z : Nat} (h : s.At y) (ha : a.Exact (mont z))
    (hsigned : a.signed = 1) (hkept : MulKept z y) :
    ∃ s', mulX wpsP 1537 a s = some s' ∧ s'.At (y * z) := by
  obtain ⟨t, hmul, ht, htSigned⟩ :=
    mul_positive hsigned h.signed s.temp1 ha.toHolds h.exact.toHolds
  obtain ⟨r, scratch', hreduce, hexact, hrSigned, hmemory, hs⟩ :=
    montgomeryReduction_kept ht.toHolds htSigned (mont_mul_lt z y) (mont_lt _) (mont_mul z y) hkept
      s.x s.scratch (.inl h.room)
  rw [Nat.mul_comm z y] at hexact
  refine ⟨⟨r, t, scratch'⟩, ?_, hexact, hrSigned, h.room.trans hmemory, htSigned, hs ▸ h.scratch⟩
  simp only [mulX, hmul, bind_eq_bind, bind_some, hreduce]

/-- Four squares, and a product with a power from the table, lose nothing. -/
def WindowKept (g y d : Nat) : Prop :=
  (∀ i < 4, SquareKept (y ^ 2 ^ i)) ∧ (d ≠ 0 → MulKept (g ^ d) (y ^ 16))

instance (g y d : Nat) : Decidable (WindowKept g y d) := inferInstanceAs (Decidable (_ ∧ _))

/-- The table holds the powers of `g`. -/
def PowersIn (g : Nat) (table : Nat → BigInteger) : Prop :=
  ∀ d, 0 < d → d < 16 → (table d).Exact (mont (g ^ d)) ∧ (table d).signed = 1

/-- **Four bits of the exponent.** -/
theorem window_at {g d : Nat} {table : Nat → BigInteger} (h : s.At y) (htable : PowersIn g table)
    (hd : d < 16) (hkept : WindowKept g y d) :
    ∃ s', window wpsP 1537 table s d = some s' ∧ s'.At (modPowerStep wpsPrime 16 g y d) := by
  obtain ⟨hsquares, hproduct⟩ := hkept
  have hone := hsquares 0 (by decide)
  have htwo := hsquares 1 (by decide)
  have hfour := hsquares 2 (by decide)
  have height := hsquares 3 (by decide)
  rw [pow_zero, pow_one] at hone
  obtain ⟨s₁, hs₁, h₁⟩ := squareX_at h hone
  rw [← pow_two] at h₁
  obtain ⟨s₂, hs₂, h₂⟩ := squareX_at h₁ htwo
  rw [← pow_add] at h₂
  obtain ⟨s₃, hs₃, h₃⟩ := squareX_at h₂ hfour
  rw [← pow_add] at h₃
  obtain ⟨s₄, hs₄, h₄⟩ := squareX_at h₃ height
  rw [← pow_add] at h₄
  simp only [window, hs₁, hs₂, hs₃, hs₄, bind_eq_bind, bind_some]
  by_cases hzero : d = 0
  · rw [if_neg (not_not.mpr hzero), hzero]
    refine ⟨s₄, rfl, h₄.congr ?_⟩
    rw [modPowerStep, powerStep, pow_zero, Nat.mul_one]
    exact (mod_modEq _ _).symm
  · rw [if_pos hzero]
    obtain ⟨hexact, hsigned⟩ := htable d (Nat.pos_of_ne_zero hzero) hd
    obtain ⟨s', hs', h'⟩ := mulX_at h₄ hexact hsigned (hproduct hzero)
    exact ⟨s', hs', h'.congr (mod_modEq _ _).symm⟩

/-- The windows lose nothing, from the power `y` on. -/
def WindowsKept (g : Nat) : List Nat → Nat → Prop
  | [], _ => True
  | d :: ds, y => WindowKept g y d ∧ WindowsKept g ds (modPowerStep wpsPrime 16 g y d)

instance (g : Nat) : ∀ ds y, Decidable (WindowsKept g ds y)
  | [], _ => inferInstanceAs (Decidable True)
  | d :: ds, y =>
    have := instDecidableWindowsKept g ds (modPowerStep wpsPrime 16 g y d)
    inferInstanceAs (Decidable (_ ∧ _))

/-- The values of `Sliding_HighValue` and `Sliding_LowValue` for `n` bytes of the exponent. -/
def slidings (e : Nat) : Nat → List Nat
  | 0 => []
  | n + 1 => byteBelow e (n + 1) / 16 :: byteBelow e (n + 1) % 16 :: slidings e n

def expRead (e n : Nat) : Nat := ofDigits 16 (slidings e n).reverse

/-- **The loop over the exponent.** -/
theorem windowLoop_at {g m n : Nat} {e : BigInteger} {table : Nat → BigInteger}
    (htable : PowersIn g table) (he : e.Holds m) (hn : n ≤ e.integerLength) (h : s.At y)
    (hkept : WindowsKept g (slidings m n) y) : ∃ s', windowLoop wpsP 1537 table e n s = some s' ∧
      s'.At ((slidings m n).foldl (modPowerStep wpsPrime 16 g) y) := by
  induction n generalizing s y with
  | zero => exact ⟨s, rfl, h⟩
  | succ n ih =>
    obtain ⟨hhigh, hlow, hrest⟩ := hkept
    have hbyte := getByteValue_holds he (succ_pos n) hn
    have hlt : byteBelow m (n + 1) < 256 := mod_lt _ (by decide)
    obtain ⟨s₁, hs₁, h₁⟩ := window_at h htable (Nat.div_lt_of_lt_mul hlt) hhigh
    obtain ⟨s₂, hs₂, h₂⟩ := window_at h₁ htable (mod_lt _ (by decide)) hlow
    obtain ⟨s₃, hs₃, h₃⟩ := ih (le_of_succ_le hn) h₂ hrest
    refine ⟨s₃, ?_, h₃⟩
    simp only [windowLoop, hbyte, hs₁, hs₂, hs₃, bind_eq_bind, bind_some]

/-! ## The table -/

/-- The products that fill the table lose nothing, and are long enough for the memory of an
    entry. -/
def TableKept (g : Nat) : Prop :=
  ∀ k < 15, 0 < k → 256 ^ 172 ≤ mont (g ^ k) * mont g ∧ MulKept (g ^ k) g

instance (g : Nat) : Decidable (TableKept g) :=
  inferInstanceAs (Decidable (∀ k < 15, 0 < k → _))

/-- The entries up to `k` are filled. -/
structure Filled (g k : Nat) (table : Nat → BigInteger) (s : Exponentiation) : Prop where
  entry : ∀ d, 0 < d → d ≤ k → (table d).Exact (mont (g ^ d)) ∧ (table d).signed = 1
  scratch : s.scratch.s.signed = 1
  temp1 : s.temp1.signed = 1

/-- **The powers up to the fifteenth.** -/
theorem tableLoop_at {g n : Nat} {table : Nat → BigInteger} (hn : n ≤ 14)
    (h : Filled g (15 - n) table s) (hkept : TableKept g) :
    ∃ table' s', tableLoop wpsP 1537 n (table, s) = some (table', s') ∧ Filled g 15 table' s' ∧
      s'.x = s.x := by
  induction n generalizing table s with
  | zero => exact ⟨table, s, rfl, h, rfl⟩
  | succ n ih =>
    have hindex : 16 - (n + 1) - 1 = 15 - (n + 1) := by omega
    obtain ⟨hlast, hlastSigned⟩ := h.entry (15 - (n + 1)) (by omega) le_rfl
    obtain ⟨hfirst, hfirstSigned⟩ := h.entry 1 Nat.one_pos (by omega)
    rw [pow_one] at hfirst
    obtain ⟨hlong, hproduct⟩ := hkept (15 - (n + 1)) (by omega) (by omega)
    obtain ⟨t, hmul, ht, htSigned⟩ := mul_positive hlastSigned hfirstSigned s.temp1 hlast.toHolds
      hfirst.toHolds
    obtain ⟨r, scratch', hreduce, hexact, hsigned, -, hs⟩ := montgomeryReduction_kept ht.toHolds
      htSigned (mont_mul_lt _ g) (mont_lt _) (mont_mul _ g) hproduct (table (16 - (n + 1))) s.scratch
      (.inr (ht.lt_integerLength hlong))
    rw [← pow_succ] at hexact
    have hsucc : 15 - (n + 1) + 1 = 16 - (n + 1) := by omega
    have hfilled : Filled g (15 - n) (update table (16 - (n + 1)) r)
        { s with temp1 := t, scratch := scratch' } := by
      refine ⟨fun d hpos hle => ?_, hs ▸ h.scratch, htSigned⟩
      by_cases hd : d = 16 - (n + 1)
      · rw [hd, update_self, ← hsucc]
        exact ⟨hexact, hsigned⟩
      · rw [update_of_ne hd]
        exact h.entry d hpos (by omega)
    obtain ⟨table', s', hloop, hfull, hx⟩ := ih (le_of_succ_le hn) hfilled
    refine ⟨table', s', ?_, hfull, hx⟩
    simp only [tableLoop, hindex, hmul, hreduce, bind_eq_bind, bind_some]
    exact hloop

/-! ## The power -/

theorem wpsDh_constants :
    (textNat wpsDhRRModPValue = mont wpsR ∧ 256 ^ 191 ≤ textNat wpsDhRRModPValue) ∧
      textNat wpsDhXValue = mont 1 ∧ 256 ^ 183 ≤ textNat wpsDhXValue := by
  decide +kernel

theorem wpsDh_lengths : wpsDhPValue.length = 192 ∧ wpsDhXValue.length = 184 := by decide +kernel

/-- Nothing is lost on the way to the power of `g`, with `n` bytes of the exponent `e`, and the power
    itself is long enough for the memory of the result. -/
structure PowerKept (g e n : Nat) : Prop where
  base : ReductionKept (g * mont wpsR) (mont g)
  table : TableKept g
  windows : WindowsKept g (slidings e n) 1
  room : 256 ^ 172 ≤ mont (g ^ expRead e n)

theorem arrayBytes_append (us vs : List (BitVec 32)) :
    arrayBytes (us ++ vs) = arrayBytes us ++ arrayBytes vs :=
  flatMap_append

theorem length_arrayBytes (ws : List (BitVec 32)) : (arrayBytes ws).length = 4 * ws.length := by
  induction ws with
  | nil => rfl
  | cons w ws ih =>
    rw [← singleton_append, arrayBytes_append, length_append, ih, length_append]
    rw [length_singleton, Nat.mul_add]
    rfl

theorem wpsP_recognised (temp1 : BigInteger) :
    (arrayBytes wpsP.integerArray).take wpsP.integerLength =
      (arrayBytes (bin2BI wpsDhPValue temp1).integerArray).take wpsP.integerLength := by
  have hne : wpsDhPValue ≠ [] := cons_ne_nil _ _
  have hbytes : (arrayBytes (textWords wpsDhPValue (wordsFor wpsDhPValue.length))).length = 192 := by
    rw [length_arrayBytes, length_textWords, wpsDh_lengths.1]
    rfl
  rw [wpsP_fields.2.2.1, wpsP, bin2BI_eq hne, bin2BI_eq hne]
  simp only [arrayBytes_append, take_left' hbytes]

/-- **`BigInteger_Montgomery_ExpMod`** for the prime of WPS, where it goes through the exponent. -/
theorem montgomeryExpMod_power {g e : BigInteger} {b m : Nat} (hg : g.Holds b)
    (hsigned : g.signed = 1) (hpos : 0 < b) (hlt : b < wpsR) (hbase : ¬ g.isByte 1)
    (he : e.Holds m) (hone : ¬ e.isByte 1) (htwo : ¬ e.isByte 2)
    (hkept : PowerKept b m e.integerLength) (bitsOfR : Nat) :
    ∃ r, montgomeryExpMod g e wpsP bitsOfR = some r ∧
      r.Exact (b ^ expRead m e.integerLength % wpsPrime) ∧ r.signed = 1 := by
  have hzero : ¬ g.isByte 0 := fun h => hpos.ne' ((hg.isByte_iff 0).mp h).2
  obtain ⟨⟨hrrValue, hrrLow⟩, hxValue, hxLow⟩ := wpsDh_constants
  have halloc : 0 < g.integerLength + e.integerLength + wpsP.integerLength + 300 := succ_pos _
  have hRR : wpsDhRRModPValue ≠ [] := cons_ne_nil _ _
  have hX : wpsDhXValue ≠ [] := cons_ne_nil _ _
  rw [montgomeryExpMod, if_neg hzero, if_neg (not_or.mpr ⟨hbase, hone⟩), if_neg htwo]
  simp only [if_pos (wpsP_recognised _), bind_eq_bind, bind_some]
  set room := init.allocSize (g.integerLength + e.integerLength + wpsP.integerLength + 300) with hroom
  have hroomSigned : room.signed = 1 := allocSize_positive rfl halloc
  -- the base in Montgomery's form
  have hrr := bin2BI_holds hRR init
  have hrrSigned := bin2BI_signed hRR init rfl
  obtain ⟨t, hmul, ht, htSigned⟩ :=
    mul_positive hsigned hrrSigned (bin2BI wpsDhPValue room) hg hrr
  rw [hrrValue] at ht hrrLow
  have hlong : 256 ^ 172 ≤ b * mont wpsR := by
    calc 256 ^ 172 ≤ 256 ^ 191 := Nat.pow_le_pow_right (by decide) (by decide)
      _ ≤ mont wpsR := hrrLow
      _ ≤ b * mont wpsR := Nat.le_mul_of_pos_left _ hpos
  have hfits : b * mont wpsR < wpsPrime * wpsR := by
    rw [Nat.mul_comm wpsPrime]
    exact Nat.mul_lt_mul'' hlt (mont_lt _)
  have hmod : mont b * wpsR ≡ b * mont wpsR [MOD wpsPrime] := by
    have hleft := (mont_modEq b).mul_right wpsR
    rw [Nat.mul_assoc] at hleft
    exact hleft.trans ((mont_modEq wpsR).mul_left b).symm
  obtain ⟨a, scratch, hreduce, ha, haSigned, -, hs⟩ := montgomeryReduction_kept ht.toHolds htSigned
    hfits (mont_lt b) hmod hkept.base (init.allocSize 193) ⟨room, room, room⟩
    (.inr (ht.lt_integerLength hlong))
  -- the table
  have hfilled : Filled b 1 (update (fun _ => init.allocSize 193) 1 a)
      ⟨bin2BI wpsDhXValue room, t, scratch⟩ := by
    refine ⟨fun d hdPos hdLe => ?_, hs ▸ hroomSigned, htSigned⟩
    obtain rfl : d = 1 := le_antisymm hdLe hdPos
    rw [update_self, pow_one]
    exact ⟨ha, haSigned⟩
  obtain ⟨table, s₁, htable, hfull, hs₁⟩ := tableLoop_at (n := 14) le_rfl hfilled hkept.table
  dsimp only at hs₁
  -- the exponent
  have hx := bin2BI_holds hX room
  rw [hxValue] at hx hxLow
  have hstart : s₁.At 1 := by
    have hxLen : (bin2BI wpsDhXValue room).integerLength = 184 :=
      (bin2BI_integerLength hX room).trans wpsDh_lengths.2
    have hxExact : (bin2BI wpsDhXValue room).Exact (mont 1) := ⟨hx, .inr (hxLen ▸ hxLow)⟩
    refine ⟨?_, ?_, ?_, hfull.temp1, hfull.scratch⟩
    · rw [hs₁]
      exact hxExact
    · rw [hs₁]
      exact bin2BI_signed hX room hroomSigned
    · have hroomLen : room.integerArray.length = max 0 (wordsFor _) := allocSize_length init halloc
      rw [hs₁, bin2BI_length hX, hroomLen, wpsP_fields.2.2.1, wordsFor_eq]
      omega
  have hpowers : PowersIn b table := fun d hdPos hdLt => hfull.entry d hdPos (le_of_lt_succ hdLt)
  obtain ⟨s₂, hwindows, hend⟩ := windowLoop_at hpowers he le_rfl hstart hkept.windows
  have hpower := hend.congr (foldl_modPowerStep_one wpsPrime 16 b (slidings m e.integerLength))
  -- the factor is taken away
  set c := b ^ expRead m e.integerLength with hc
  have hc' : c % wpsPrime < wpsPrime := mod_lt _ wpsPrime_pos
  have hback : c % wpsPrime * wpsR ≡ mont c [MOD wpsPrime] :=
    ((mod_modEq c wpsPrime).mul_right wpsR).trans (mont_modEq c).symm
  have hno : mont c ≤ c % wpsPrime * wpsR := by
    have hself : mont c = mont (c % wpsPrime) := mont_congr (mod_modEq _ _).symm
    rw [hself]
    exact mod_le _ _
  have hsmall : mont c < wpsPrime * wpsR :=
    (mont_lt c).trans_le (Nat.le_mul_of_pos_right _ (wpsPrime_pos.trans wpsPrime_lt_wpsR))
  obtain ⟨r, scratch', hlast, hr, hrSigned, -, -⟩ := montgomeryReduction_kept hpower.exact.toHolds
    hpower.signed hsmall hc' hback (.inl hno) init s₂.scratch
    (.inr (hpower.exact.lt_integerLength hkept.room))
  refine ⟨r, ?_, hr, hrSigned⟩
  simp only [hmul, hreduce, htable, hwindows, hlast, bind_some]
  rfl

/-! ## Leading zeros -/

section

variable {g e n k : Nat} {ds : List Nat} (hds : slidings e n = replicate k 0 ++ ds)

theorem modPowerStep_one_zero (g : Nat) : modPowerStep wpsPrime 16 g 1 0 = 1 := by
  have hone : 1 < wpsPrime :=
    (one_lt_pow (show 191 ≠ 0 by decide) (show 1 < 256 by decide)).trans_le wpsPrime_bounds.1
  rw [modPowerStep, powerStep, one_pow, pow_zero, Nat.mul_one, mod_eq_of_lt hone]

theorem foldl_zeros (g k : Nat) :
    (replicate k 0).foldl (modPowerStep wpsPrime 16 g) 1 = 1 := by
  induction k with
  | zero => rfl
  | succ k ih => rw [replicate_succ, foldl_cons, modPowerStep_one_zero, ih]

theorem windowsKept_zeros (hone : SquareKept 1) (hkept : WindowsKept g ds 1) :
    WindowsKept g (replicate k 0 ++ ds) 1 := by
  induction k with
  | zero => exact hkept
  | succ k ih =>
    rw [replicate_succ, cons_append, WindowsKept, modPowerStep_one_zero]
    refine ⟨⟨fun i _ => ?_, fun hne => absurd rfl hne⟩, ih⟩
    rw [one_pow]
    exact hone

include hds

theorem foldl_modEq_power :
    ds.foldl (modPowerStep wpsPrime 16 g) 1 ≡ g ^ expRead e n [MOD wpsPrime] := by
  have hpower := foldl_modPowerStep_one wpsPrime 16 g (slidings e n)
  rwa [hds, foldl_append, foldl_zeros, ← hds] at hpower

theorem powerKept_of_zeros (hbase : ReductionKept (g * mont wpsR) (mont g)) (htable : TableKept g)
    (hone : SquareKept 1) (hkept : WindowsKept g ds 1)
    (hroom : 256 ^ 172 ≤ mont (ds.foldl (modPowerStep wpsPrime 16 g) 1)) : PowerKept g e n := by
  refine ⟨hbase, htable, ?_, ?_⟩
  · rw [hds]
    exact windowsKept_zeros hone hkept
  · rwa [← mont_congr (foldl_modEq_power hds)]

end

end RalinkSdk.Crypt
