import RalinkSdk.Crypt.Power

/-!
# Diffie-Hellman

`DH_PublicKey_Generate` and `DH_SecretKey_Generate`, and an exchange with the prime of WPS.  The
callers send and hash all 192 bytes of a buffer, and the conversion writes the bytes of the number
to its start.  The exponent is the private key with the bytes of each word rotated.

## Source

`common/crypt_dh.c`, `common/wsc.c`.
-/

namespace RalinkSdk.Crypt

open Lib BigInteger List Option Nat

/-! ## The functions -/

/-- The body of both functions: `GValue` of the one, and `PublicKey` of the other, is raised to the
    private key.  `none` stands for an access outside an array. -/
def dhGenerate (base pValue privateKey key : List (BitVec 8)) (keyLength bitsOfR : Nat) :
    Option (List (BitVec 8) × Nat) :=
  if base.length = 0 then some (key, keyLength)
  else if pValue.length = 0 then some (key, keyLength)
  else if privateKey.length = 0 then some (key, keyLength)
  else if keyLength < pValue.length then some (key, keyLength)
  else if pValue.getD (pValue.length - 1) 0 &&& 1 = 0 then some (key, keyLength)
  else do
    let result ← montgomeryExpMod (bin2BI base init) (bin2BI privateKey init) (bin2BI pValue init)
      bitsOfR
    some ((bi2Bin result keyLength).elim (key, 0) fun value =>
      (value ++ key.drop value.length, value.length))

def dhPublicKeyGenerate (gValue pValue privateKey publicKey : List (BitVec 8))
    (publicKeyLength bitsOfR : Nat) : Option (List (BitVec 8) × Nat) :=
  dhGenerate gValue pValue privateKey publicKey publicKeyLength bitsOfR

def dhSecretKeyGenerate (publicKey pValue privateKey secretKey : List (BitVec 8))
    (secretKeyLength bitsOfR : Nat) : Option (List (BitVec 8) × Nat) :=
  dhGenerate publicKey pValue privateKey secretKey secretKeyLength bitsOfR

def wpsDhGValue : List (BitVec 8) := [0x02]

/-- The buffers of 192 bytes of both sides before an exchange. -/
structure DhBuffers where
  publicA : List (BitVec 8)
  publicB : List (BitVec 8)
  secretA : List (BitVec 8)
  secretB : List (BitVec 8)
  length_eq : publicA.length = 192 ∧ publicB.length = 192 ∧ secretA.length = 192 ∧
    secretB.length = 192

/-- The public keys are computed and sent, and then the secrets. -/
def exchange (a b : List (BitVec 8)) (buffers : DhBuffers) (bitsOfR : Nat) :
    Option (List (BitVec 8) × List (BitVec 8)) := do
  let (publicA, _) ← dhPublicKeyGenerate wpsDhGValue wpsDhPValue a buffers.publicA 192 bitsOfR
  let (publicB, _) ← dhPublicKeyGenerate wpsDhGValue wpsDhPValue b buffers.publicB 192 bitsOfR
  let (secretA, _) ← dhSecretKeyGenerate publicB wpsDhPValue a buffers.secretA 192 bitsOfR
  let (secretB, _) ← dhSecretKeyGenerate publicA wpsDhPValue b buffers.secretB 192 bitsOfR
  some (secretA, secretB)

/-- Whatever the buffers hold before, both sides get the 192 bytes of `G^(ab)`. -/
def SharesSecret (a b : List (BitVec 8)) : Prop :=
  ∀ buffers bitsOfR, exchange a b buffers bitsOfR =
    some (textOf 192 (2 ^ (textNat a * textNat b) % wpsPrime),
      textOf 192 (2 ^ (textNat a * textNat b) % wpsPrime))

/-! ## One side -/

theorem byteLength_le {n k : Nat} (hk : 0 < k) (h : n < 256 ^ k) : byteLength n ≤ k := by
  rw [byteLength, succ_le_iff]
  exact log_lt_of_lt_pow' hk.ne' h

theorem byteLength_eq {n k : Nat} (hlow : 256 ^ k ≤ n) (hhigh : n < 256 ^ (k + 1)) :
    byteLength n = k + 1 := by
  rw [byteLength, log_eq_of_pow_le_of_lt_pow hlow hhigh]

theorem wpsDhPValue_odd : wpsDhPValue.getD (wpsDhPValue.length - 1) 0 &&& 1 ≠ 0 := by
  decide +kernel

theorem wpsPrime_odd : Nat.Coprime 2 wpsPrime := by
  rw [coprime_two_left, odd_iff]
  have hlow := congrArg (· % 2) wpsPrime_mod
  simp only [mod_mod_of_dvd _ (show 2 ∣ 2 ^ 32 from by decide)] at hlow
  exact hlow

theorem dhGenerate_eq {base privateKey : List (BitVec 8)} (hbase : base ≠ [])
    (hkey : privateKey.length = 192) (key : List (BitVec 8)) (bitsOfR : Nat) :
    dhGenerate base wpsDhPValue privateKey key 192 bitsOfR =
      (montgomeryExpMod (bin2BI base init) (bin2BI privateKey init) wpsP bitsOfR).bind fun result =>
        some ((bi2Bin result 192).elim (key, 0) fun value =>
          (value ++ key.drop value.length, value.length)) := by
  have hbaseLen : base.length ≠ 0 := fun h => hbase (length_eq_zero_iff.mp h)
  rw [dhGenerate, if_neg hbaseLen, wpsDh_lengths.1, if_neg (by decide), hkey, if_neg (by decide),
    if_neg (by decide), ← wpsDh_lengths.1, if_neg wpsDhPValue_odd]
  rfl

/-- **One side**: the number that nothing is lost of is at the start of the buffer. -/
theorem dhGenerate_power {base privateKey : List (BitVec 8)} (hbase : base.length ≤ 192)
    (hlarge : 1 < textNat base) (hkey : privateKey.length = 192)
    (hkept : PowerKept (textNat base) (textNat privateKey) 192) (key : List (BitVec 8))
    (bitsOfR : Nat) :
    let power := textNat base ^ expRead (textNat privateKey) 192 % wpsPrime
    dhGenerate base wpsDhPValue privateKey key 192 bitsOfR =
      some (textOf (byteLength power) power ++ key.drop (byteLength power), byteLength power) := by
  intro power
  have hbaseNe : base ≠ [] := by
    rintro rfl
    exact absurd hlarge (by decide)
  have hkeyNe : privateKey ≠ [] := by
    rintro rfl
    cases hkey
  have hg := bin2BI_holds hbaseNe init
  have he := bin2BI_holds hkeyNe init
  have heLen : (bin2BI privateKey init).integerLength = 192 :=
    (bin2BI_integerLength hkeyNe init).trans hkey
  have hlong : ∀ x, ¬ (bin2BI privateKey init).isByte x := by
    intro x hx
    rw [isByte, heLen] at hx
    exact absurd hx.1 (by decide)
  have hnotOne : ¬ (bin2BI base init).isByte 1 := fun h =>
    hlarge.ne' ((hg.isByte_iff 1).mp h).2
  have hfits : textNat base < wpsR := by
    rw [wpsR_eq, pow_words]
    exact (textNat_lt base).trans_le (Nat.pow_le_pow_right (by decide) hbase)
  obtain ⟨r, hr, hexact, -⟩ := montgomeryExpMod_power hg (bin2BI_signed hbaseNe init rfl)
    (zero_lt_of_lt hlarge) hfits hnotOne he (hlong 1) (hlong 2) (heLen.symm ▸ hkept) bitsOfR
  rw [heLen] at hexact
  have hlen := hexact.integerLength_eq_byteLength
  have hshort : r.integerLength ≤ 192 := by
    rw [hlen]
    exact byteLength_le (by decide) ((mod_lt _ wpsPrime_pos).trans wpsPrime_bounds.2)
  rw [dhGenerate_eq hbaseNe hkey, hr, bind_some, bi2Bin_exact hexact hshort, hlen]
  simp only [elim_some, length_textOf]
  rfl

theorem dhGenerate_long {base privateKey key : List (BitVec 8)} (hbase : base.length ≤ 192)
    (hlarge : 1 < textNat base) (hkey : privateKey.length = 192)
    (hkept : PowerKept (textNat base) (textNat privateKey) 192)
    (hlong : 256 ^ 191 ≤ textNat base ^ expRead (textNat privateKey) 192 % wpsPrime)
    (hbuffer : key.length = 192) (bitsOfR : Nat) :
    dhGenerate base wpsDhPValue privateKey key 192 bitsOfR =
      some (textOf 192 (textNat base ^ expRead (textNat privateKey) 192 % wpsPrime), 192) := by
  have hlen := byteLength_eq hlong ((mod_lt _ wpsPrime_pos).trans wpsPrime_bounds.2)
  rw [dhGenerate_power hbase hlarge hkey hkept, hlen, drop_eq_nil_of_le hbuffer.le, append_nil]

/-! ## The exchange -/

/-- 2, as an element of the multiplicative group. -/
def wpsGenerator : (ZMod wpsPrime)ˣ := ZMod.unitOfCoprime 2 wpsPrime_odd

theorem pow_two_eq_iff (m n : Nat) :
    2 ^ m % wpsPrime = 2 ^ n % wpsPrime ↔ m ≡ n [MOD orderOf wpsGenerator] := by
  have hcast : ∀ k, ((wpsGenerator ^ k : (ZMod wpsPrime)ˣ) : ZMod wpsPrime) = (2 ^ k : Nat) := by
    intro k
    rw [Units.val_pow_eq_pow_val, wpsGenerator, ZMod.coe_unitOfCoprime, cast_pow]
  rw [← pow_eq_pow_iff_modEq, Units.ext_iff, hcast, hcast, ZMod.natCast_eq_natCast_iff]
  rfl

/-- No carry and no borrow is lost on the way to the four powers of an exchange, and the public
    keys have 192 bytes. -/
structure ExchangeKept (a b : List (BitVec 8)) : Prop where
  publicA : PowerKept 2 (textNat a) 192
  publicB : PowerKept 2 (textNat b) 192
  longA : 256 ^ 191 ≤ 2 ^ expRead (textNat a) 192 % wpsPrime
  longB : 256 ^ 191 ≤ 2 ^ expRead (textNat b) 192 % wpsPrime
  secretA : PowerKept (2 ^ expRead (textNat b) 192 % wpsPrime) (textNat a) 192
  secretB : PowerKept (2 ^ expRead (textNat a) 192 % wpsPrime) (textNat b) 192

/-- Besides, the exponents as they are read have a product that gives the same secret, and that has
    192 bytes as well. -/
structure Faithful (a b : List (BitVec 8)) : Prop extends ExchangeKept a b where
  exponents : expRead (textNat a) 192 * expRead (textNat b) 192 ≡ textNat a * textNat b
    [MOD orderOf wpsGenerator]
  long : 256 ^ 191 ≤ 2 ^ (textNat a * textNat b) % wpsPrime

variable {a b : List (BitVec 8)}

theorem textNat_public {n : Nat} (hlong : 256 ^ 191 ≤ 2 ^ n % wpsPrime) :
    textNat (textOf 192 (2 ^ n % wpsPrime)) = 2 ^ n % wpsPrime ∧
      1 < textNat (textOf 192 (2 ^ n % wpsPrime)) := by
  have hlt : 2 ^ n % wpsPrime < 256 ^ 192 := (mod_lt _ wpsPrime_pos).trans wpsPrime_bounds.2
  have hone : 1 < 256 ^ 191 := one_lt_pow (show 191 ≠ 0 by decide) (show 1 < 256 by decide)
  rw [textNat_textOf, mod_eq_of_lt hlt]
  exact ⟨rfl, hone.trans_le hlong⟩

theorem power_power (m n : Nat) : (2 ^ m % wpsPrime) ^ n % wpsPrime = 2 ^ (m * n) % wpsPrime := by
  rw [← pow_mod, ← pow_mul]

/-- **An exchange** in which nothing is lost: each side has the bytes of the secret at the start of
    its buffer. -/
theorem exchange_kept (ha : a.length = 192) (hb : b.length = 192) (hkept : ExchangeKept a b)
    (buffers : DhBuffers) (bitsOfR : Nat) :
    let secret := 2 ^ (expRead (textNat a) 192 * expRead (textNat b) 192) % wpsPrime
    exchange a b buffers bitsOfR =
      some (textOf (byteLength secret) secret ++ buffers.secretA.drop (byteLength secret),
        textOf (byteLength secret) secret ++ buffers.secretB.drop (byteLength secret)) := by
  intro secret
  obtain ⟨hbufA, hbufB, -, -⟩ := buffers.length_eq
  have hvalueG : textNat wpsDhGValue = 2 := rfl
  have hlargeG : 1 < textNat wpsDhGValue := by decide
  have hlenG : wpsDhGValue.length ≤ 192 := by decide
  have hpublicA := dhGenerate_long hlenG hlargeG ha (hvalueG.symm ▸ hkept.publicA)
    (hvalueG.symm ▸ hkept.longA) hbufA bitsOfR
  have hpublicB := dhGenerate_long hlenG hlargeG hb (hvalueG.symm ▸ hkept.publicB)
    (hvalueG.symm ▸ hkept.longB) hbufB bitsOfR
  rw [hvalueG] at hpublicA hpublicB
  obtain ⟨hreadA, hlargeA⟩ := textNat_public hkept.longA
  obtain ⟨hreadB, hlargeB⟩ := textNat_public hkept.longB
  have hlenText : ∀ n, (textOf 192 n).length ≤ 192 := fun n => (length_textOf 192 n).le
  have hsecretA := dhGenerate_power (hlenText _) hlargeB ha (by rw [hreadB]; exact hkept.secretA)
    buffers.secretA bitsOfR
  have hsecretB := dhGenerate_power (hlenText _) hlargeA hb (by rw [hreadA]; exact hkept.secretB)
    buffers.secretB bitsOfR
  rw [hreadB, power_power, Nat.mul_comm] at hsecretA
  rw [hreadA, power_power] at hsecretB
  simp only [exchange, dhPublicKeyGenerate, dhSecretKeyGenerate, hpublicA, hpublicB, hsecretA,
    hsecretB, bind_eq_bind, bind_some]
  rfl

/-! ## The highest byte -/

/-- A buffer that is full of one byte. -/
def fullOf (x : BitVec 8) : List (BitVec 8) := replicate 192 x

theorem length_fullOf (x : BitVec 8) : (fullOf x).length = 192 := length_replicate

theorem le_of_same_rest {value : List (BitVec 8)} {n : Nat}
    (h : value ++ (fullOf 0).drop n = value ++ (fullOf 1).drop n) : 192 ≤ n := by
  have hrest := append_cancel_left h
  rw [fullOf, fullOf, drop_replicate, drop_replicate] at hrest
  by_contra hlt
  obtain ⟨k, hk⟩ := exists_eq_succ_of_ne_zero (show 192 - n ≠ 0 by omega)
  rw [hk, replicate_succ, replicate_succ] at hrest
  exact absurd (List.cons.inj hrest).1 (by decide)

theorem dhGenerate_head {base privateKey secret : List (BitVec 8)} {bitsOfR n m : Nat}
    (hkey : privateKey.length = 192)
    (hzeros : dhGenerate base wpsDhPValue privateKey (fullOf 0) 192 bitsOfR = some (secret, n))
    (hones : dhGenerate base wpsDhPValue privateKey (fullOf 1) 192 bitsOfR = some (secret, m)) :
    ∃ x xs, secret = x :: xs ∧ x ≠ 0 := by
  have hnothing : ¬ (fullOf 0 = secret ∧ fullOf 1 = secret) := by
    rintro ⟨rfl, hone⟩
    exact absurd (@le_of_same_rest [] 0 hone.symm) (by decide)
  have hbase : base ≠ [] := by
    rintro rfl
    exact hnothing ⟨(Prod.mk.inj (some.inj hzeros)).1, (Prod.mk.inj (some.inj hones)).1⟩
  rw [dhGenerate_eq hbase hkey] at hzeros hones
  obtain ⟨r, hr, hzeros⟩ := bind_eq_some_iff.mp hzeros
  rw [hr, bind_some] at hones
  have hz := (Prod.mk.inj (some.inj hzeros)).1
  have ho := (Prod.mk.inj (some.inj hones)).1
  cases hvalue : bi2Bin r 192 with
  | none =>
    rw [hvalue] at hz ho
    exact absurd ⟨hz, ho⟩ hnothing
  | some value =>
    rw [hvalue] at hz ho
    have hz : value ++ (fullOf 0).drop value.length = secret := hz
    have ho : value ++ (fullOf 1).drop value.length = secret := ho
    have hlong := le_of_same_rest (hz.trans ho.symm)
    rw [drop_eq_nil_of_le ((length_fullOf 0).trans_le hlong), append_nil] at hz
    obtain hone | hhead := bi2Bin_head hvalue
    · omega
    · rwa [← hz]

/-- Buffers that are full of zeros, but for one of the secrets. -/
def buffersOf (x : BitVec 8) : DhBuffers :=
  ⟨fullOf 0, fullOf 0, fullOf x, fullOf 0, length_fullOf 0, length_fullOf 0, length_fullOf x,
    length_fullOf 0⟩

theorem SharesSecret.long (ha : a.length = 192) (h : SharesSecret a b) :
    256 ^ 191 ≤ 2 ^ (textNat a * textNat b) % wpsPrime := by
  have hlt : 2 ^ (textNat a * textNat b) % wpsPrime < 256 ^ 192 :=
    (mod_lt _ wpsPrime_pos).trans wpsPrime_bounds.2
  have hzeros := h (buffersOf 0) 0
  have hones := h (buffersOf 1) 0
  generalize 2 ^ (textNat a * textNat b) % wpsPrime = secret at hlt hzeros hones ⊢
  simp only [exchange, bind_eq_bind, bind_eq_some_iff, Prod.exists] at hzeros hones
  obtain ⟨publicA, nA, -, publicB, nB, hpublicB, secretA, n, hsecretA, secretB, k, -, hzeros⟩ := hzeros
  obtain ⟨publicA', nA', -, publicB', nB', hpublicB', secretA', n', hsecretA', secretB', k', -,
    hones⟩ := hones
  obtain ⟨rfl, -⟩ := Prod.mk.inj (some.inj (hpublicB.symm.trans hpublicB'))
  obtain rfl : secretA = textOf 192 secret := (Prod.mk.inj (some.inj hzeros)).1
  obtain rfl : secretA' = textOf 192 secret := (Prod.mk.inj (some.inj hones)).1
  obtain ⟨x, xs, htext, hx⟩ := dhGenerate_head ha hsecretA hsecretA'
  have hvalue := textNat_textOf 192 secret
  have hxs : xs.length = 191 := by
    have hboth := congrArg List.length htext
    rw [length_textOf, length_cons] at hboth
    omega
  have hpos : 0 < x.toNat := Nat.pos_of_ne_zero fun hzero => hx (BitVec.eq_of_toNat_eq hzero)
  have hhead : textNat (x :: xs) = textNat xs + 256 ^ 191 * x.toNat := by
    rw [← singleton_append, textNat_append, hxs]
    rfl
  rw [mod_eq_of_lt hlt, htext, hhead] at hvalue
  rw [← hvalue]
  exact (Nat.le_mul_of_pos_right _ hpos).trans (Nat.le_add_left _ _)

theorem SharesSecret.exponents (ha : a.length = 192) (hb : b.length = 192) (h : SharesSecret a b)
    (hkept : ExchangeKept a b) :
    expRead (textNat a) 192 * expRead (textNat b) 192 ≡ textNat a * textNat b
      [MOD orderOf wpsGenerator] := by
  have hbound : ∀ n, 2 ^ n % wpsPrime < 256 ^ 192 := fun n =>
    (mod_lt _ wpsPrime_pos).trans wpsPrime_bounds.2
  have hrun : ∀ x, _ := fun x => (exchange_kept ha hb hkept (buffersOf x) 0).symm.trans (h _ 0)
  have hfirst := fun x => (Prod.mk.inj (some.inj (hrun x))).1
  have hlong := le_of_same_rest ((hfirst 0).trans (hfirst 1).symm)
  have hlen := le_antisymm (byteLength_le (by decide) (hbound _)) hlong
  have hsame := hfirst 0
  rw [hlen, show (buffersOf 0).secretA = fullOf 0 from rfl,
    drop_eq_nil_of_le (length_fullOf 0).le, append_nil] at hsame
  exact (pow_two_eq_iff _ _).mp (textOf_injective (hbound _) (hbound _) hsame)

/-! ## Agreement -/

/-- **Agreement**: both sides get the secret in a faithful exchange.  If both always get it, the
    secret has 192 bytes, and the exchange is faithful unless something is lost on the way. -/
theorem sharesSecret_faithful (a b : List (BitVec 8)) (ha : a.length = 192) (hb : b.length = 192) :
    (Faithful a b → SharesSecret a b) ∧
      (SharesSecret a b → 256 ^ 191 ≤ 2 ^ (textNat a * textNat b) % wpsPrime ∧
        (ExchangeKept a b → Faithful a b)) := by
  have hbound : ∀ n, 2 ^ n % wpsPrime < 256 ^ 192 := fun n =>
    (Nat.mod_lt _ wpsPrime_pos).trans wpsPrime_bounds.2
  constructor
  · intro hfaithful buffers bitsOfR
    obtain ⟨-, -, hbufA, hbufB⟩ := buffers.length_eq
    have hlen := byteLength_eq hfaithful.long (hbound _)
    rw [exchange_kept ha hb hfaithful.toExchangeKept buffers bitsOfR,
      (pow_two_eq_iff _ _).mpr hfaithful.exponents, hlen, List.drop_eq_nil_of_le hbufA.le,
      List.drop_eq_nil_of_le hbufB.le, List.append_nil]
  · intro hshares
    have hlong := hshares.long ha
    exact ⟨hlong, fun hkept => ⟨hkept, hshares.exponents ha hb hkept, hlong⟩⟩

/-! ### Private keys with one byte in the last word -/

/-- A private key that is read as it is. -/
def keyOf (x : BitVec 8) : List (BitVec 8) := replicate 188 0 ++ replicate 4 x

/-- The public key of the number `0x01010101`. -/
def publicOnes : Nat := [0, 1, 0, 1, 0, 1, 0, 1].foldl (modPowerStep wpsPrime 16 2) 1

theorem keyOf_one : slidings (textNat (keyOf 1)) 192 =
      replicate 376 0 ++ [0, 1, 0, 1, 0, 1, 0, 1] ∧
    expRead (textNat (keyOf 1)) 192 = textNat (keyOf 1) := by
  decide +kernel

theorem publicOnes_eq : 2 ^ expRead (textNat (keyOf 1)) 192 % wpsPrime = publicOnes := by
  have hpower := foldl_modEq_power (g := 2) keyOf_one.1
  have hlt : publicOnes < wpsPrime := by decide +kernel
  rw [← hpower]
  exact mod_eq_of_lt hlt

/-- Both sides with the number `0x01010101`. -/
theorem sharesSecret_ones : SharesSecret (keyOf 1) (keyOf 1) := by
  have hone : SquareKept 1 := by decide +kernel
  have hpublic : PowerKept 2 (textNat (keyOf 1)) 192 :=
    powerKept_of_zeros keyOf_one.1 (by decide +kernel) (by decide +kernel) hone (by decide +kernel)
      (by decide +kernel)
  have hsecret : PowerKept publicOnes (textNat (keyOf 1)) 192 :=
    powerKept_of_zeros keyOf_one.1 (by decide +kernel) (by decide +kernel) hone (by decide +kernel)
      (by decide +kernel)
  have hlong : 256 ^ 191 ≤ publicOnes := by decide +kernel
  have hlong' : 256 ^ 191 ≤
      [0, 1, 0, 1, 0, 1, 0, 1].foldl (modPowerStep wpsPrime 16 publicOnes) 1 % wpsPrime := by
    decide +kernel
  rw [foldl_modEq_power keyOf_one.1, ← publicOnes_eq, power_power, keyOf_one.2] at hlong'
  rw [← publicOnes_eq] at hlong hsecret
  exact (sharesSecret_faithful (keyOf 1) (keyOf 1) rfl rfl).1
    ⟨⟨hpublic, hpublic, hlong, hlong, hsecret, hsecret⟩, by rw [keyOf_one.2], hlong'⟩

/-- The secret of `0x08080808` and `0x59595959` has 191 bytes. -/
theorem not_sharesSecret_short : ¬ SharesSecret (keyOf 0x08) (keyOf 0x59) := by
  intro hshares
  have hlong := hshares.long rfl
  have hpower := foldl_modPowerStep_one wpsPrime 16 2 [2, 12, 13, 9, 8, 6, 3, 2, 8, 5, 13, 9, 2, 12, 8]
  have hproduct : Nat.ofDigits 16 [2, 12, 13, 9, 8, 6, 3, 2, 8, 5, 13, 9, 2, 12, 8].reverse =
      textNat (keyOf 0x08) * textNat (keyOf 0x59) := by
    decide +kernel
  rw [← hproduct, ← hpower] at hlong
  revert hlong
  decide +kernel

end RalinkSdk.Crypt
