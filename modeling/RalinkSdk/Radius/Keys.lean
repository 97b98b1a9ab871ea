import RalinkSdk.Radius.Msg

/-!
# The keys of Microsoft's attributes

A server sends a key in blocks of 16 bytes, each exclusive-or a digest of the secret and the block
before it; the first digest is over the authenticator of the request and a salt.  `mppeEncrypt` is
this encryption, and `decrypt_ms_key` undoes it.
-/

namespace RalinkSdk.Radius

open Lib List Option Nat

variable (md5 : List Byte → Buf md5MacLen) (secret : List Byte)

/-! ## The encryption -/

/-- `n` blocks are encrypted, the first with the digest of `chained`. -/
def mppeEncrypt : Nat → List Byte → List Byte → List Byte
  | 0, _, _ => []
  | n + 1, chained, plain =>
    let block := zipWith (· ^^^ ·) (plain.take md5MacLen) (md5 (secret ++ chained)).bytes
    block ++ mppeEncrypt n block (plain.drop md5MacLen)

/-- `n` blocks are decrypted. -/
def mppeDecrypt : Nat → List Byte → List Byte → List Byte
  | 0, _, _ => []
  | n + 1, chained, cipher =>
    zipWith (· ^^^ ·) (cipher.take md5MacLen) (md5 (secret ++ chained)).bytes ++
      mppeDecrypt n (cipher.take md5MacLen) (cipher.drop md5MacLen)

/-- The number of blocks for a key with its length byte. -/
def mppeBlocks (key : List Byte) : Nat := key.length / md5MacLen + 1

/-- The text that is encrypted: the length, the key and zeros up to a whole number of blocks. -/
def mppePlain (key : List Byte) : List Byte :=
  BitVec.ofNat 8 key.length :: key ++
    replicate (md5MacLen * mppeBlocks key - (key.length + 1)) 0

/-- A key as a server sends it: the salt, and the text encrypted. -/
def mppeKey (authenticator : Buf md5MacLen) (salt key : List Byte) : List Byte :=
  salt ++ mppeEncrypt md5 secret (mppeBlocks key) (authenticator.bytes ++ salt) (mppePlain key)

theorem key_length_lt (key : List Byte) : key.length < md5MacLen * mppeBlocks key := by
  have hdiv := div_add_mod key.length md5MacLen
  have hmod := mod_lt key.length (show 0 < md5MacLen by decide)
  rw [mppeBlocks, Nat.mul_add, Nat.mul_one]
  omega

theorem length_mppePlain (key : List Byte) :
    (mppePlain key).length = md5MacLen * mppeBlocks key := by
  have hlt := key_length_lt key
  rw [mppePlain, length_append, length_cons, length_replicate]
  omega

/-! ## Decrypting what was encrypted -/

theorem zipWith_xor_cancel {xs ys : List Byte} (h : xs.length = ys.length) :
    zipWith (· ^^^ ·) (zipWith (· ^^^ ·) xs ys) ys = xs := by
  apply ext_getElem
  · simp [h]
  · intro i hi _
    rw [getElem_zipWith, getElem_zipWith, BitVec.xor_assoc, BitVec.xor_self, BitVec.xor_zero]

theorem length_block {plain : List Byte} (h : md5MacLen ≤ plain.length) (b : Buf md5MacLen) :
    (zipWith (· ^^^ ·) (plain.take md5MacLen) b.bytes).length = md5MacLen := by
  rw [length_zipWith, length_take, b.size]
  omega

theorem length_mppeEncrypt {n : Nat} {plain : List Byte} (h : plain.length = md5MacLen * n)
    (chained : List Byte) : (mppeEncrypt md5 secret n chained plain).length = md5MacLen * n := by
  induction n generalizing chained plain with
  | zero => rfl
  | succ n ih =>
    rw [Nat.mul_add, Nat.mul_one] at h ⊢
    rw [mppeEncrypt, length_append, length_block (by omega),
      ih (by rw [length_drop]; omega)]
    omega

/-- **Block by block**, each digest is that of the encryption. -/
theorem mppeDecrypt_encrypt {n : Nat} {plain : List Byte} (h : plain.length = md5MacLen * n)
    (chained : List Byte) :
    mppeDecrypt md5 secret n chained (mppeEncrypt md5 secret n chained plain) = plain := by
  induction n generalizing chained plain with
  | zero => exact (length_eq_zero_iff.mp h).symm
  | succ n ih =>
    rw [Nat.mul_add, Nat.mul_one] at h
    have hlong : md5MacLen ≤ plain.length := by omega
    have hblock := length_block hlong (md5 (secret ++ chained))
    have htake : (plain.take md5MacLen).length = (md5 (secret ++ chained)).bytes.length := by
      rw [Buf.size, length_take]
      omega
    rw [mppeEncrypt, mppeDecrypt, take_left' hblock, drop_left' hblock,
      zipWith_xor_cancel htake, ih (by rw [length_drop]; omega), take_append_drop]

theorem length_mppeDecrypt {n : Nat} {cipher : List Byte} (h : md5MacLen * n ≤ cipher.length)
    (chained : List Byte) : (mppeDecrypt md5 secret n chained cipher).length = md5MacLen * n := by
  induction n generalizing chained cipher with
  | zero => rfl
  | succ n ih =>
    rw [Nat.mul_add, Nat.mul_one] at h ⊢
    rw [mppeDecrypt, length_append, length_block (by omega),
      ih (by rw [length_drop]; omega)]
    omega

/-! ## The loop -/

variable {authenticator : Buf md5MacLen} {key : List Byte}

/-- What the digest of a block is over. -/
def chainedWith (authenticator : Buf md5MacLen) (key : List Byte) (first : Bool) (pos : Nat) :
    List Byte :=
  if first then authenticator.bytes ++ key.take 2 else (key.drop (pos - md5MacLen)).take md5MacLen

/-- **The loop of `decrypt_ms_key`** decrypts the blocks that are left. -/
theorem decryptLoop_eq {n pos fuel : Nat} {first : Bool} (hlen : key.length = pos + md5MacLen * n)
    (hpos : if first then pos = 2 else 2 + md5MacLen ≤ pos) (hfuel : n < fuel) (plain : List Byte) :
    decryptLoop md5 key secret authenticator fuel first pos (md5MacLen * n) plain =
      some (plain ++
        mppeDecrypt md5 secret n (chainedWith authenticator key first pos) (key.drop pos)) := by
  obtain ⟨fuel, rfl⟩ := exists_eq_add_one_of_ne_zero (Nat.ne_zero_of_lt hfuel)
  induction n generalizing pos fuel first plain with
  | zero => rw [decryptLoop, if_neg (by simp), mppeDecrypt, append_nil]
  | succ n ih =>
    obtain ⟨fuel, rfl⟩ := exists_eq_add_one_of_ne_zero
      (Nat.ne_zero_of_lt (lt_of_succ_lt_succ hfuel))
    rw [Nat.mul_add, Nat.mul_one] at hlen ⊢
    have hblock : fetch key pos md5MacLen = some ((key.drop pos).take md5MacLen) :=
      fetch_eq_some_iff.mpr ⟨by omega, rfl⟩
    -- the digest is over the authenticator and the salt, or over the block before
    have hchained : hashedFor key authenticator first pos =
        some (chainedWith authenticator key first pos) := by
      cases first with
      | true =>
        have hsalt : fetch key 0 2 = some (key.take 2) := by
          rw [if_pos rfl] at hpos
          exact fetch_eq_some_iff.mpr ⟨by omega, by rw [drop_zero]⟩
        rw [hashedFor, if_pos rfl, hsalt]
        rfl
      | false =>
        rw [if_neg (by simp)] at hpos
        exact fetch_eq_some_iff.mpr ⟨by omega, rfl⟩
    have hnext : chainedWith authenticator key false (pos + md5MacLen) =
        (key.drop pos).take md5MacLen := by
      rw [chainedWith, if_neg (by simp), Nat.add_sub_cancel]
    have hstart : 2 + md5MacLen ≤ pos + md5MacLen := by
      cases first with
      | true => rw [if_pos rfl] at hpos; omega
      | false => rw [if_neg (by simp)] at hpos; omega
    rw [decryptLoop, if_pos (by simp [md5MacLen]), Nat.add_sub_cancel]
    simp only [bind_eq_bind]
    rw [hchained, bind_some, hblock, bind_some,
      ih (by omega) (by simpa using hstart) _ fuel (by omega), mppeDecrypt, hnext, drop_drop,
      append_assoc]

/-- The text that `decrypt_ms_key` decrypts. -/
def msKeyPlain (authenticator : Buf md5MacLen) (key : List Byte) : List Byte :=
  mppeDecrypt md5 secret ((key.length - 2) / md5MacLen) (authenticator.bytes ++ key.take 2)
    (key.drop 2)

theorem length_msKeyPlain (authenticator : Buf md5MacLen) (hmod : (key.length - 2) % md5MacLen = 0) :
    (msKeyPlain md5 secret authenticator key).length = key.length - 2 := by
  have hdiv := div_add_mod (key.length - 2) md5MacLen
  rw [msKeyPlain, length_mppeDecrypt md5 secret (by rw [length_drop]; omega)]
  omega

theorem decryptLoop_msKey (authenticator : Buf md5MacLen) (hlen : 2 + 16 ≤ key.length)
    (hmod : (key.length - 2) % md5MacLen = 0) :
    decryptLoop md5 key secret authenticator (key.length - 2 + 1) true 2 (key.length - 2) [] =
        some (msKeyPlain md5 secret authenticator key) ∧
      ∃ length, (msKeyPlain md5 secret authenticator key)[0]? = some length := by
  have hdiv := div_add_mod (key.length - 2) md5MacLen
  rw [hmod, Nat.add_zero] at hdiv
  have hloop : decryptLoop md5 key secret authenticator (key.length - 2 + 1) true 2
      (md5MacLen * ((key.length - 2) / md5MacLen)) [] =
        some ([] ++ msKeyPlain md5 secret authenticator key) :=
    decryptLoop_eq md5 secret (by omega) (by simp) (lt_succ_of_le (Nat.div_le_self _ _)) []
  rw [hdiv, nil_append] at hloop
  refine ⟨hloop, _, getElem?_eq_getElem ?_⟩
  rw [length_msKeyPlain md5 secret authenticator hmod]
  omega

/-- **Any other bytes**: `decrypt_ms_key` returns null or bytes of the text it has decrypted, behind
    its length byte. -/
theorem decryptMsKey_inside (authenticator : Buf md5MacLen) (key : List Byte) (mem : Mem) :
    ∃ r, decryptMsKey md5 key authenticator secret mem = some r ∧
      ∀ res, r = some res →
        decryptLoop md5 key secret authenticator (key.length - 2 + 1) true 2 (key.length - 2) [] =
          some (msKeyPlain md5 secret authenticator key) ∧
        1 + res.length ≤ (msKeyPlain md5 secret authenticator key).length ∧
        res = ((msKeyPlain md5 secret authenticator key).drop 1).take res.length := by
  have hnull : ∀ res : List Byte, none = some res → False := by simp
  rw [decryptMsKey]
  by_cases hlen : key.length < 2 + 16
  · exact ⟨none, by rw [if_pos hlen], fun res h => (hnull res h).elim⟩
  rw [if_neg hlen]
  by_cases hmod : (key.length - 2) % 16 = 0
  case neg => exact ⟨none, by rw [if_pos hmod], fun res h => (hnull res h).elim⟩
  rw [if_neg (not_not.mpr hmod)]
  cases h0 : mem 0 with
  | false => exact ⟨none, rfl, fun res h => (hnull res h).elim⟩
  | true =>
    obtain ⟨hloop, length, hfirst⟩ :=
      decryptLoop_msKey md5 secret authenticator (Nat.le_of_not_lt hlen) hmod
    simp only [Bool.not_true, Bool.false_eq_true, if_false, hloop, bind_eq_bind, bind_some, hfirst]
    by_cases hroom : key.length - 2 - 1 < length.toNat
    · exact ⟨none, by rw [if_pos hroom], fun res h => (hnull res h).elim⟩
    rw [if_neg hroom]
    cases h1 : mem 1 with
    | false => exact ⟨none, rfl, fun res h => (hnull res h).elim⟩
    | true =>
      -- the length is one that the text has
      have hsize := length_msKeyPlain md5 secret authenticator hmod
      have hfetch : fetch (msKeyPlain md5 secret authenticator key) 1 length.toNat =
          some (((msKeyPlain md5 secret authenticator key).drop 1).take length.toNat) :=
        fetch_eq_some_iff.mpr ⟨by omega, rfl⟩
      refine ⟨_, by rw [hfetch]; rfl, ?_⟩
      rintro res ⟨⟩
      have hres := length_fetch hfetch
      exact ⟨trivial, by omega, by rw [hres]⟩

/-- **The key is returned** that the server has encrypted. -/
theorem decryptMsKey_mppeKey {salt : List Byte} (hsalt : salt.length = 2)
    (hmax : key.length ≤ 255) :
    decryptMsKey md5 (mppeKey md5 secret authenticator salt key) authenticator secret
      (fun _ => true) = some (some key) := by
  let cipher := mppeEncrypt md5 secret (mppeBlocks key) (authenticator.bytes ++ salt) (mppePlain key)
  have hcipher : cipher.length = md5MacLen * mppeBlocks key :=
    length_mppeEncrypt md5 secret (length_mppePlain key) _
  have hlen : (mppeKey md5 secret authenticator salt key).length =
      2 + md5MacLen * mppeBlocks key := by
    rw [mppeKey, length_append, hsalt, hcipher]
  have hsub : (mppeKey md5 secret authenticator salt key).length - 2 =
      md5MacLen * mppeBlocks key := by omega
  have hblocks : 1 ≤ mppeBlocks key := Nat.le_add_left 1 _
  have hmod : ((mppeKey md5 secret authenticator salt key).length - 2) % md5MacLen = 0 := by
    rw [hsub, mul_mod_right]
  have hlong : 2 + 16 ≤ (mppeKey md5 secret authenticator salt key).length := by
    have hmul := Nat.mul_le_mul_left md5MacLen hblocks
    rw [hlen]
    simp only [md5MacLen] at hmul ⊢
    omega
  -- the text is what was encrypted
  have hplain : msKeyPlain md5 secret authenticator (mppeKey md5 secret authenticator salt key) =
      mppePlain key := by
    rw [msKeyPlain, hsub, Nat.mul_div_cancel_left _ (by decide), mppeKey, take_left' hsalt,
      drop_left' hsalt]
    exact mppeDecrypt_encrypt md5 secret (length_mppePlain key) _
  have hloop := (decryptLoop_msKey md5 secret authenticator hlong hmod).1
  rw [hplain] at hloop
  have hbyte : (BitVec.ofNat 8 key.length).toNat = key.length := by
    rw [BitVec.toNat_ofNat]
    omega
  have hfetch : fetch ([BitVec.ofNat 8 key.length] ++ (key ++
      replicate (md5MacLen * mppeBlocks key - (key.length + 1)) 0)) 1 key.length = some key :=
    fetch_append rfl rfl
  have hroom : ¬ (mppeKey md5 secret authenticator salt key).length - 2 - 1 < key.length := by
    have hlt := key_length_lt key
    omega
  rw [decryptMsKey, if_neg (Nat.not_lt.mpr hlong), if_neg (not_not.mpr hmod)]
  simp only [Bool.not_true, Bool.false_eq_true, if_false, hloop, bind_eq_bind, bind_some]
  rw [mppePlain, cons_append, getElem?_cons_zero, bind_some, hbyte, if_neg hroom]
  rw [singleton_append] at hfetch
  rw [hfetch]
  rfl

/-- **`decrypt_ms_key`** returns a key of at most 255 bytes that was encrypted, and for any other
    bytes null or bytes of the text it has decrypted. -/
theorem decryptMsKey_spec (md5 : List Byte → Buf md5MacLen) (secret : List Byte)
    (authenticator : Buf md5MacLen) : (∀ salt key, salt.length = 2 → key.length ≤ 255 →
      decryptMsKey md5 (mppeKey md5 secret authenticator salt key) authenticator secret
        (fun _ => true) = some (some key)) ∧
    ∀ key mem, ∃ r, decryptMsKey md5 key authenticator secret mem = some r ∧
      ∀ res, r = some res →
        decryptLoop md5 key secret authenticator (key.length - 2 + 1) true 2 (key.length - 2) [] =
          some (msKeyPlain md5 secret authenticator key) ∧
        1 + res.length ≤ (msKeyPlain md5 secret authenticator key).length ∧
        res = ((msKeyPlain md5 secret authenticator key).drop 1).take res.length :=
  ⟨fun _ _ hsalt hmax => decryptMsKey_mppeKey md5 secret hsalt hmax,
    fun key mem => decryptMsKey_inside md5 secret authenticator key mem⟩

/-- A key of 20 bytes, in two blocks. -/
theorem decryptMsKey_spec_twenty : decryptMsKey (fun _ => Buf.fill md5MacLen 0x5a)
      (mppeKey (fun _ => Buf.fill md5MacLen 0x5a) [0x73] (Buf.fill md5MacLen 1) [0x80, 2]
        (List.replicate 20 7)) (Buf.fill md5MacLen 1) [0x73] (fun _ => true) =
      some (some (List.replicate 20 7)) :=
  (decryptMsKey_spec (fun _ => Buf.fill md5MacLen 0x5a) [0x73] (Buf.fill md5MacLen 1)).1
    [0x80, 2] (List.replicate 20 7) rfl (by decide)

end RalinkSdk.Radius
