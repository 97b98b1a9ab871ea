import RalinkSdk.Crypt.AesBlock
import RalinkSdk.Crypt.KeyWrap
import RalinkSdk.Lib.Region

/-!
# AES-CBC in buffers

`AES_CBC_Encrypt` and `AES_CBC_Decrypt` with the AES of the driver, their checks, their running
offsets and the buffers they write.  `none` is an access outside a buffer.

## Source

`common/crypt_aes.c`.
-/

namespace RalinkSdk.Crypt

open Lib List Option Nat
open BitVec (ofNat toNat_ofNat)

/-! ## The functions -/

def aesCbcIvLength : Nat := 16

/-- `RT_AES_Encrypt` or `RT_AES_Decrypt` writing at an offset: the buffer and the block size that
    is returned.  A rejected call leaves both. -/
def blockInto (result : Option (List Byte)) (buffer : List Byte) (start size : Nat) :
    Option (List Byte × Nat) :=
  match result with
  | none => some (buffer, size)
  | some block => (put buffer start block).map fun buffer => (buffer, 16)

/-- The block a block is combined with: `IV` for the first one, else the cipher block before. -/
def chainBlock (iv cipherText : List Byte) (cipherBlockStart : Nat) (first : Bool) :
    Option (List Byte) :=
  if first then fetch iv 0 16 else fetch cipherText (cipherBlockStart - 16) 16

def cbcEncryptBlock (key iv cipherText block : List Byte) (cipherBlockStart : Nat) :
    Option (List Byte × Nat) := do
  let chain ← chainBlock iv cipherText cipherBlockStart (cipherBlockStart == 0)
  let size := cipherText.length - cipherBlockStart
  blockInto (rtAesEncrypt (zipWith (· ^^^ ·) block chain) key size) cipherText
    cipherBlockStart size

def cbcEncryptLoop (plainText key iv : List Byte) (plainBlockStart cipherBlockStart : Nat)
    (cipherText : List Byte) : Option (Nat × Nat × List Byte) :=
  if 16 ≤ plainText.length - plainBlockStart then do
    let block ← fetch plainText plainBlockStart 16
    let (cipherText, size) ← cbcEncryptBlock key iv cipherText block cipherBlockStart
    cbcEncryptLoop plainText key iv (plainBlockStart + 16) (cipherBlockStart + size) cipherText
  else some (plainBlockStart, cipherBlockStart, cipherText)
termination_by plainText.length - plainBlockStart
decreasing_by omega

/-- The block of `AES_CBC_Encrypt` that is padded. -/
def cbcEncryptLast (plainText key iv : List Byte) (plainBlockStart cipherBlockStart : Nat)
    (cipherText : List Byte) : Option (List Byte × Nat) := do
  let paddingSize := 16 - plainText.length % 16
  let rest ← fetch plainText plainBlockStart (plainText.length - plainBlockStart)
  let block := rest ++ replicate paddingSize (ofNat 8 paddingSize)
  let (cipherText, size) ← cbcEncryptBlock key iv cipherText block cipherBlockStart
  some (cipherText, cipherBlockStart + size)

/-- `AES_CBC_Encrypt`: the buffer `CipherText`, whose size is passed in `*CipherTextLength`, and
    the value of `*CipherTextLength` afterwards. -/
def aesCbcEncryptInto (plainText key iv cipherText : List Byte) : Option (List Byte × Nat) :=
  let paddingSize := 16 - plainText.length % 16
  if cipherText.length < plainText.length + paddingSize then some (cipherText, cipherText.length)
  else if key.length ∉ aesKeyLengths then some (cipherText, cipherText.length)
  else if iv.length ≠ aesCbcIvLength then some (cipherText, cipherText.length)
  else do
    let (plainBlockStart, cipherBlockStart, cipherText) ←
      cbcEncryptLoop plainText key iv 0 0 cipherText
    cbcEncryptLast plainText key iv plainBlockStart cipherBlockStart cipherText

def cbcDecryptLoop (cipherText key iv : List Byte) (cipherBlockStart plainBlockStart : Nat)
    (plainText : List Byte) : Option (Nat × List Byte) :=
  if 16 ≤ cipherText.length - cipherBlockStart then do
    let block ← fetch cipherText cipherBlockStart 16
    let size := plainText.length - plainBlockStart
    let (plainText, size) ← blockInto (rtAesDecrypt block key size) plainText plainBlockStart size
    let plain ← fetch plainText plainBlockStart 16
    let chain ← chainBlock iv cipherText cipherBlockStart (plainBlockStart == 0)
    let plainText ← put plainText plainBlockStart (zipWith (· ^^^ ·) plain chain)
    cbcDecryptLoop cipherText key iv (cipherBlockStart + 16) (plainBlockStart + size) plainText
  else some (plainBlockStart, plainText)
termination_by cipherText.length - cipherBlockStart
decreasing_by omega

/-- `AES_CBC_Decrypt`: the buffer `PlainText`, whose size is passed in `*PlainTextLength`, and the
    value of `*PlainTextLength` afterwards, a `UINT`. -/
def aesCbcDecryptInto (cipherText key iv plainText : List Byte) :
    Option (List Byte × BitVec 32) :=
  if cipherText.length % 16 ≠ 0 then some (plainText, ofNat 32 plainText.length)
  else if key.length ∉ aesKeyLengths then some (plainText, ofNat 32 plainText.length)
  else if iv.length ≠ aesCbcIvLength then some (plainText, ofNat 32 plainText.length)
  else do
    let (plainBlockStart, plainText) ← cbcDecryptLoop cipherText key iv 0 0 plainText
    let plainBlockStart := ofNat 32 plainBlockStart
    let paddingSize ← plainText[(plainBlockStart - 1).toNat]?
    some (plainText, plainBlockStart - paddingSize.setWidth 32)

/-! ## One block -/

/-- The block before what is at hand: the last one of those that are done, or `IV`. -/
def Chains (iv done : List Byte) (prev : Buf 16) : Prop :=
  (done = [] ∧ iv = prev.bytes) ∨ ∃ before, done = before ++ prev.bytes

section

variable {key iv done old rest : List Byte} {prev : Buf 16}

theorem Chains.snoc (done : List Byte) (block : Buf 16) : Chains iv (done ++ block.bytes) block :=
  .inr ⟨done, rfl⟩

theorem chainBlock_of_chains (h : Chains iv done prev) (rest : List Byte) :
    chainBlock iv (done ++ rest) done.length (done.length == 0) = some prev.bytes := by
  rcases h with ⟨rfl, rfl⟩ | ⟨before, rfl⟩
  · exact fetch_whole prev.size
  · have hlen : (before ++ prev.bytes).length = before.length + 16 := by
      rw [length_append, prev.size]
    have hfirst : ((before ++ prev.bytes).length == 0) = false := by
      rw [hlen]
      rfl
    rw [chainBlock, hfirst, if_neg (by decide), hlen, Nat.add_sub_cancel, append_assoc]
    exact fetch_append rfl prev.size

theorem cbcEncryptBlock_eq (hkey : key.length ∈ aesKeyLengths) (h : Chains iv done prev)
    (block : Buf 16) (hold : 16 ≤ old.length) :
    cbcEncryptBlock key iv (done ++ old) block.bytes done.length =
      some (done ++ ((aesEncryptBlock key (xorBuf block prev)).bytes ++ old.drop 16), 16) := by
  have hroom : 16 ≤ (done ++ old).length - done.length := by
    rw [length_append]
    omega
  have hwrite : rtAesEncrypt (xorBuf block prev).bytes key ((done ++ old).length - done.length) =
      some (aesEncryptBlock key (xorBuf block prev)).bytes := by
    refine if_neg ?_
    rintro (hblock | hlength | hsize)
    · exact hblock (Buf.size _)
    · exact hlength hkey
    · exact absurd hsize (not_lt.mpr hroom)
  have hput : put (done ++ old) done.length (aesEncryptBlock key (xorBuf block prev)).bytes =
      some (done ++ ((aesEncryptBlock key (xorBuf block prev)).bytes ++ old.drop 16)) := by
    conv_lhs => rw [← take_append_drop 16 old]
    refine put_append rfl ?_
    rw [length_take_of_le hold, Buf.size]
  unfold cbcEncryptBlock
  rw [chainBlock_of_chains h old]
  simp only [bind_eq_bind, bind_some]
  show blockInto (rtAesEncrypt (xorBuf block prev).bytes key _) _ _ _ = _
  rw [hwrite, blockInto, hput]
  rfl

end

/-! ## Encryption -/

section

variable {key iv plain done text old : List Byte} {prev : Buf 16}

theorem cbcEncryptLast_eq (hkey : key.length ∈ aesKeyLengths) (h : Chains iv done prev)
    (hplain : plain.length % 16 = 0) (htext : text.length < 16) (hold : 16 ≤ old.length) :
    cbcEncryptLast (plain ++ text) key iv plain.length done.length (done ++ old) =
      some (done ++ ((aesEncryptBlock key (xorBuf (padded text htext) prev)).bytes ++ old.drop 16),
        done.length + 16) := by
  have hrest : (plain ++ text).length - plain.length = text.length := by simp
  have hpad : 16 - (plain ++ text).length % 16 = 16 - text.length := by
    rw [length_append]
    omega
  have hfetch : fetch (plain ++ text) plain.length text.length = some text :=
    fetch_append_nil rfl rfl
  unfold cbcEncryptLast
  rw [hrest, hpad, hfetch]
  simp only [bind_eq_bind, bind_some]
  have hblock := cbcEncryptBlock_eq hkey h (padded text htext) hold
  rw [padded] at hblock ⊢
  rw [hblock]
  rfl

theorem cbcEncryptLoop_bind (hkey : key.length ∈ aesKeyLengths) (h : Chains iv done prev)
    (hplain : plain.length % 16 = 0) (hold : text.length / 16 * 16 + 16 ≤ old.length) :
    (cbcEncryptLoop (plain ++ text) key iv plain.length done.length (done ++ old)).bind
        (fun (p, c, cipherText) => cbcEncryptLast (plain ++ text) key iv p c cipherText) =
      some (done ++ (aesCbcEncrypt (aesEncryptBlock key) text prev ++
          old.drop (text.length / 16 * 16 + 16)),
        done.length + (text.length / 16 * 16 + 16)) := by
  induction hn : text.length using Nat.strong_induction_on
    generalizing text plain done old prev with
  | _ n ih =>
    have hleft : (plain ++ text).length - plain.length = text.length := by simp
    rw [cbcEncryptLoop, hleft, aesCbcEncrypt]
    by_cases hlen : 16 ≤ text.length
    · rw [if_pos hlen, dif_pos hlen]
      have hfetch : fetch (plain ++ text) plain.length 16 = some (firstBlock text hlen).bytes := by
        conv_lhs => rw [← take_append_drop 16 text]
        exact fetch_append rfl (length_take_of_le hlen)
      have hblock := cbcEncryptBlock_eq hkey h (firstBlock text hlen)
        (show 16 ≤ old.length by omega)
      simp only [bind_eq_bind, hfetch, hblock, bind_some]
      -- the block that was read and the block that was written belong to what is done
      have hsplit : plain ++ text = (plain ++ (firstBlock text hlen).bytes) ++ text.drop 16 := by
        rw [append_assoc]
        exact congrArg (plain ++ ·) (take_append_drop 16 text).symm
      have hplain' : (plain ++ (firstBlock text hlen).bytes).length = plain.length + 16 := by
        rw [length_append, Buf.size]
      have hdone' : (done ++
          (aesEncryptBlock key (xorBuf (firstBlock text hlen) prev)).bytes).length =
            done.length + 16 := by
        rw [length_append, Buf.size]
      have hchain : Chains iv (done ++
          (aesEncryptBlock key (xorBuf (firstBlock text hlen) prev)).bytes)
            (aesEncryptBlock key (xorBuf (firstBlock text hlen) prev)) := Chains.snoc done _
      have hmod : (plain ++ (firstBlock text hlen).bytes).length % 16 = 0 := by
        rw [hplain']
        omega
      have hold' : (text.drop 16).length / 16 * 16 + 16 ≤ (old.drop 16).length := by
        simp only [length_drop]
        omega
      have hrest := ih (text.drop 16).length (by rw [length_drop]; omega) hchain hmod hold' rfl
      have hcount : text.length / 16 * 16 = (text.length - 16) / 16 * 16 + 16 := by omega
      rw [← hsplit, hplain', hdone', append_assoc, length_drop] at hrest
      rw [hrest, ← hn, hcount, drop_drop]
      simp only [append_assoc, Nat.add_assoc, Nat.add_comm, Nat.add_left_comm]
    · rw [if_neg hlen, dif_neg hlen, bind_some]
      dsimp only
      rw [cbcEncryptLast_eq hkey h hplain (by omega) (by omega)]
      have hdiv : n / 16 * 16 + 16 = 16 := by omega
      rw [hdiv]

/-- **`AES_CBC_Encrypt`** writes the encrypted text to the start of the buffer. -/
theorem aesCbcEncryptInto_eq (hkey : key.length ∈ aesKeyLengths) (iv : Buf 16)
    {cipherText : List Byte} (hroom : text.length / 16 * 16 + 16 ≤ cipherText.length) :
    aesCbcEncryptInto text key iv.bytes cipherText =
      some (aesCbcEncrypt (aesEncryptBlock key) text iv ++
        cipherText.drop (text.length / 16 * 16 + 16), text.length / 16 * 16 + 16) := by
  have hsize : ¬cipherText.length < text.length + (16 - text.length % 16) := by
    have hdiv := div_add_mod text.length 16
    have hmod := mod_lt text.length (by decide : 0 < 16)
    omega
  have hchain : Chains iv.bytes [] iv := .inl ⟨rfl, rfl⟩
  have hplain : ([] : List Byte).length % 16 = 0 := rfl
  have hrun := cbcEncryptLoop_bind hkey hchain hplain hroom
  simp only [nil_append, length_nil, Nat.zero_add] at hrun
  have hiv : iv.bytes.length = aesCbcIvLength := iv.size
  rw [aesCbcEncryptInto, if_neg hsize, if_neg (not_not.mpr hkey), if_neg (not_not.mpr hiv)]
  exact hrun

end

/-! ## Decryption -/

section

variable {key iv cipher text plain old : List Byte} {prev : Buf 16}

theorem cbcDecryptLoop_eq (hkey : key.length ∈ aesKeyLengths) (h : Chains iv cipher prev)
    (hsame : plain.length = cipher.length) (htext : text.length % 16 = 0)
    (hold : text.length ≤ old.length) :
    cbcDecryptLoop (cipher ++ text) key iv cipher.length plain.length (plain ++ old) =
      some (plain.length + text.length,
        plain ++ (cbcDecryptBlocks (aesDecryptBlock key) text prev ++ old.drop text.length)) := by
  induction hn : text.length using Nat.strong_induction_on
    generalizing text cipher plain old prev with
  | _ n ih =>
    have hleft : (cipher ++ text).length - cipher.length = text.length := by simp
    rw [cbcDecryptLoop, hleft, cbcDecryptBlocks]
    by_cases hlen : 16 ≤ text.length
    · rw [if_pos hlen, dif_pos hlen]
      have hfetch : fetch (cipher ++ text) cipher.length 16 =
          some (firstBlock text hlen).bytes := by
        conv_lhs => rw [← take_append_drop 16 text]
        exact fetch_append rfl (length_take_of_le hlen)
      have hroom : 16 ≤ (plain ++ old).length - plain.length := by
        rw [length_append]
        omega
      have hdecrypt : rtAesDecrypt (firstBlock text hlen).bytes key
          ((plain ++ old).length - plain.length) =
            some (aesDecryptBlock key (firstBlock text hlen)).bytes := by
        refine if_neg ?_
        rintro (hsize | hlength | hblock)
        · exact absurd hsize (not_lt.mpr hroom)
        · exact hlength hkey
        · exact hblock (Buf.size _)
      have htake : (old.take 16).length = 16 := length_take_of_le (by omega)
      -- the block is written twice: as it was decrypted, and combined with the one before
      have hput : ∀ block : Buf 16, put (plain ++ old) plain.length block.bytes =
          some (plain ++ (block.bytes ++ old.drop 16)) := by
        intro block
        conv_lhs => rw [← take_append_drop 16 old]
        exact put_append rfl (by rw [htake, Buf.size])
      have hput' : ∀ block block' : Buf 16,
          put (plain ++ (block.bytes ++ old.drop 16)) plain.length block'.bytes =
            some (plain ++ (block'.bytes ++ old.drop 16)) :=
        fun block block' => put_append rfl (by rw [Buf.size, Buf.size])
      have hchain : chainBlock iv (cipher ++ text) cipher.length (plain.length == 0) =
          some prev.bytes := by
        rw [hsame]
        exact chainBlock_of_chains h text
      have hplain : fetch (plain ++ ((aesDecryptBlock key (firstBlock text hlen)).bytes ++
          old.drop 16)) plain.length 16 =
            some (aesDecryptBlock key (firstBlock text hlen)).bytes := fetch_append rfl (Buf.size _)
      simp only [bind_eq_bind, hfetch, hdecrypt, blockInto, hput, map_some,
        bind_some, hplain, hchain]
      rw [show zipWith (· ^^^ ·) (aesDecryptBlock key (firstBlock text hlen)).bytes
        prev.bytes = (xorBuf (aesDecryptBlock key (firstBlock text hlen)) prev).bytes from rfl,
        hput', bind_some]
      -- both blocks belong to what is done
      have hsplit : cipher ++ text = (cipher ++ (firstBlock text hlen).bytes) ++ text.drop 16 := by
        rw [append_assoc]
        exact congrArg (cipher ++ ·) (take_append_drop 16 text).symm
      have hcipher' : (cipher ++ (firstBlock text hlen).bytes).length = cipher.length + 16 := by
        rw [length_append, Buf.size]
      have hplain' : (plain ++
          (xorBuf (aesDecryptBlock key (firstBlock text hlen)) prev).bytes).length =
            plain.length + 16 := by
        rw [length_append, Buf.size]
      have hchain' : Chains iv (cipher ++ (firstBlock text hlen).bytes) (firstBlock text hlen) :=
        Chains.snoc cipher _
      have hsame' : (plain ++
          (xorBuf (aesDecryptBlock key (firstBlock text hlen)) prev).bytes).length =
            (cipher ++ (firstBlock text hlen).bytes).length := by
        rw [hplain', hcipher', hsame]
      have htext' : (text.drop 16).length % 16 = 0 := by
        rw [length_drop]
        omega
      have hold' : (text.drop 16).length ≤ (old.drop 16).length := by
        simp only [length_drop]
        omega
      have hrest := ih (text.drop 16).length (by rw [length_drop]; omega) hchain' hsame' htext'
        hold' rfl
      rw [← hsplit, hplain', hcipher', append_assoc, length_drop] at hrest
      have hcount : plain.length + 16 + (text.length - 16) = plain.length + n := by omega
      have hskip : 16 + (text.length - 16) = n := by omega
      rw [hrest, hcount, drop_drop, hskip]
      simp only [append_assoc]
    · have hnil : text = [] := length_eq_zero_iff.mp (by omega)
      subst hnil
      rw [if_neg hlen, dif_neg hlen, ← hn]
      simp

theorem length_cbcDecryptBlocks (D : Buf 16 → Buf 16) (htext : text.length % 16 = 0)
    (prev : Buf 16) : (cbcDecryptBlocks D text prev).length = text.length := by
  induction hn : text.length using Nat.strong_induction_on generalizing text prev with
  | _ n ih =>
    rw [cbcDecryptBlocks]
    split
    · next h =>
      rw [length_append, Buf.size, ih (text.drop 16).length (by rw [length_drop]; omega)
        (by rw [length_drop]; omega) _ rfl, length_drop]
      omega
    · rw [length_nil]
      omega

/-- The checks of both functions on the key and the initialization vector. -/
def Accepts (key iv : List Byte) : Prop :=
  key.length ∈ aesKeyLengths ∧ iv.length = aesCbcIvLength

theorem aesCbcDecryptInto_eq (hkey : key.length ∈ aesKeyLengths) (iv : Buf 16)
    (htext : text.length % 16 = 0) (hold : text.length ≤ old.length) :
    aesCbcDecryptInto text key iv.bytes old =
      let plainText := cbcDecryptBlocks (aesDecryptBlock key) text iv ++ old.drop text.length
      (plainText[(ofNat 32 text.length - 1).toNat]?).map fun paddingSize =>
        (plainText, ofNat 32 text.length - paddingSize.setWidth 32) := by
  have hchain : Chains iv.bytes [] iv := .inl ⟨rfl, rfl⟩
  have hsame : ([] : List Byte).length = ([] : List Byte).length := rfl
  have hrun := cbcDecryptLoop_eq hkey hchain hsame htext hold
  simp only [nil_append, length_nil, Nat.zero_add] at hrun
  have hiv : iv.bytes.length = aesCbcIvLength := iv.size
  rw [aesCbcDecryptInto, if_neg (not_not.mpr htext), if_neg (not_not.mpr hkey),
    if_neg (not_not.mpr hiv), hrun]
  simp only [bind_eq_bind, bind_some]
  cases (cbcDecryptBlocks (aesDecryptBlock key) text iv ++ old.drop text.length)[
    (ofNat 32 text.length - 1).toNat]? with
  | none => rfl
  | some paddingSize => rfl

theorem getElem?_last (htext : text.length % 16 = 0) (hne : text ≠ [])
    (hcap : text.length < 2 ^ 32) (old : List Byte) (D : Buf 16 → Buf 16) (iv : Buf 16) :
    (cbcDecryptBlocks D text iv ++ old.drop text.length)[
        (ofNat 32 text.length - 1).toNat]? =
      (cbcDecryptBlocks D text iv).getLast? := by
  have hpos : 0 < text.length := length_pos_iff.mpr hne
  have hindex : (ofNat 32 text.length - 1).toNat = text.length - 1 := by
    have hone : (1 : BitVec 32) ≤ ofNat 32 text.length := by
      rw [BitVec.le_def, toNat_ofNat, mod_eq_of_lt hcap]
      exact hpos
    rw [BitVec.toNat_sub_of_le hone, toNat_ofNat, mod_eq_of_lt hcap]
    rfl
  have hblocks := length_cbcDecryptBlocks D htext iv
  rw [hindex, getElem?_append_left (by omega), getLast?_eq_getElem?, hblocks]

end

/-! ## The round trip -/

section

variable {key iv plainText cipherText plainBuffer : List Byte}

theorem sub_paddingSize {n p : Nat} (hp : p < 2 ^ 8) (hpn : p ≤ n) :
    ofNat 32 n - (ofNat 8 p).setWidth 32 = ofNat 32 (n - p) := by
  have hwide : (ofNat 8 p).setWidth 32 = ofNat 32 p := by
    apply BitVec.eq_of_toNat_eq
    rw [BitVec.toNat_setWidth, toNat_ofNat, toNat_ofNat, mod_eq_of_lt hp]
  obtain ⟨d, rfl⟩ := Nat.exists_eq_add_of_le' hpn
  rw [hwide, BitVec.ofNat_add, Nat.add_sub_cancel, BitVec.add_sub_cancel]

/-- **Decryption inverts encryption**: any buffer for the cipher text that is large enough, and any
    buffer for the plain text that is as long as what was written. -/
theorem aesCbcDecryptInto_encryptInto (haccept : Accepts key iv)
    (hroom : plainText.length + (16 - plainText.length % 16) ≤ cipherText.length)
    (hcap : cipherText.length < 2 ^ 32) : ∃ (cipherText' : List Byte) (n : Nat),
      aesCbcEncryptInto plainText key iv cipherText = some (cipherText', n) ∧
      n = plainText.length + (16 - plainText.length % 16) ∧
      (n ≤ plainBuffer.length → ∃ plainBuffer',
        aesCbcDecryptInto (cipherText'.take n) key iv plainBuffer =
          some (plainBuffer', BitVec.ofNat 32 plainText.length) ∧
        plainBuffer'.take plainText.length = plainText) := by
  obtain ⟨hkey, hiv⟩ := haccept
  obtain ⟨iv, rfl⟩ : ∃ b : Buf 16, iv = b.bytes := ⟨⟨iv, hiv⟩, rfl⟩
  have hdiv := Nat.div_add_mod plainText.length 16
  have hmod := Nat.mod_lt plainText.length (by decide : 0 < 16)
  have hcount : plainText.length / 16 * 16 + 16 =
      plainText.length + (16 - plainText.length % 16) := by omega
  refine ⟨_, _, aesCbcEncryptInto_eq hkey iv (hcount ▸ hroom), hcount, ?_⟩
  intro hbuffer
  -- what `*CipherTextLength` cuts off is what was in the buffer before
  have hlen : (aesCbcEncrypt (aesEncryptBlock key) plainText iv).length =
      plainText.length / 16 * 16 + 16 := length_aesCbcEncrypt _ plainText iv
  rw [List.take_left' hlen]
  have hne : aesCbcEncrypt (aesEncryptBlock key) plainText iv ≠ [] := by
    intro hnil
    rw [hnil, List.length_nil] at hlen
    omega
  have hback := cbcDecryptBlocks_encrypt _ _ (aesDecryptBlock_encryptBlock key) plainText iv
  have hlast : (withPadding plainText).getLast? =
      some (BitVec.ofNat 8 (16 - plainText.length % 16)) := getLast?_withPadding plainText
  have hwhole : (aesCbcEncrypt (aesEncryptBlock key) plainText iv).length % 16 = 0 := by
    rw [hlen]
    omega
  refine ⟨withPadding plainText ++
    plainBuffer.drop (aesCbcEncrypt (aesEncryptBlock key) plainText iv).length, ?_, ?_⟩
  · rw [aesCbcDecryptInto_eq hkey iv hwhole (by rw [hlen]; exact hbuffer)]
    dsimp only
    rw [getElem?_last hwhole hne (by omega) plainBuffer, hback, hlast, Option.map_some, hlen, hcount,
      sub_paddingSize (by omega) (by omega)]
    rw [Nat.add_sub_cancel]
  · rw [withPadding, List.append_assoc, List.take_left' rfl]

/-- 33 bytes in buffers of 60 and 50 bytes. -/
theorem aesCbcDecryptInto_encryptInto_33 : ∃ (cipherText' : List Byte) (n : Nat),
      aesCbcEncryptInto (List.replicate 33 7) (List.replicate 24 1) (List.replicate 16 3)
        (List.replicate 60 9) = some (cipherText', n) ∧
      n = 33 + (16 - 33 % 16) ∧
      (n ≤ 50 → ∃ plainBuffer',
        aesCbcDecryptInto (cipherText'.take n) (List.replicate 24 1) (List.replicate 16 3)
          (List.replicate 50 9) = some (plainBuffer', BitVec.ofNat 32 33) ∧
        plainBuffer'.take 33 = List.replicate 33 7) :=
  @aesCbcDecryptInto_encryptInto (List.replicate 24 1) (List.replicate 16 3) (List.replicate 33 7)
    (List.replicate 60 9) (List.replicate 50 9) ⟨by decide, by decide⟩ (by decide) (by decide)

end

/-! ## Arbitrary cipher texts -/

/-- The last byte that is decrypted: of the last block, combined with the block before it or `IV`. -/
def paddingByte (key iv cipherText : List Byte) : Byte :=
  ((rtAesDecrypt (cipherText.drop (cipherText.length - 16)) key 16).getD []).getD 15 0 ^^^
    (iv ++ cipherText).getD (cipherText.length - 1) 0

/-- `AES_CBC_Decrypt` stays inside the buffer and reports at most the length of the cipher text. -/
def DecryptsSafely (cipherText key iv plainText : List Byte) : Prop :=
  ∃ (plainText' : List Byte) (n : BitVec 32),
    aesCbcDecryptInto cipherText key iv plainText = some (plainText', n) ∧
      n.toNat ≤ cipherText.length

section

variable {key iv cipherText plainText : List Byte}

theorem getLast?_xorBuf (a b : Buf 16) :
    (xorBuf a b).bytes.getLast? = some (a.bytes.getD 15 0 ^^^ b.bytes.getD 15 0) := by
  have ha : 15 < a.bytes.length := by simp [a.size]
  have hb : 15 < b.bytes.length := by simp [b.size]
  rw [getLast?_eq_getElem?, Buf.size, getD_eq_getElem _ _ ha, getD_eq_getElem _ _ hb]
  simp [xorBuf, ha, hb]

theorem getLast?_cbcDecryptBlocks (hkey : key.length ∈ aesKeyLengths) (iv : Buf 16)
    (hwhole : cipherText.length % 16 = 0) (hne : cipherText ≠ []) :
    (cbcDecryptBlocks (aesDecryptBlock key) cipherText iv).getLast? =
      some (paddingByte key iv.bytes cipherText) := by
  induction hn : cipherText.length using Nat.strong_induction_on generalizing cipherText iv with
  | _ n ih =>
    have hpos := length_pos_iff.mpr hne
    have hlen : 16 ≤ cipherText.length := by omega
    rw [cbcDecryptBlocks, dif_pos hlen]
    have hsplit : cipherText = (firstBlock cipherText hlen).bytes ++ cipherText.drop 16 :=
      (take_append_drop 16 cipherText).symm
    by_cases hlast : cipherText.drop 16 = []
    · -- one block: the byte before it is the last one of `IV`
      have hone : cipherText = (firstBlock cipherText hlen).bytes := by
        rw [hlast, append_nil] at hsplit
        exact hsplit
      have hsize : cipherText.length = 16 := by rw [hone, Buf.size]
      have hdecrypt : rtAesDecrypt cipherText key 16 =
          some (aesDecryptBlock key (firstBlock cipherText hlen)).bytes := by
        conv_lhs => rw [hone]
        exact rtAesDecrypt_eq hkey _
      rw [hlast, cbcDecryptBlocks, dif_neg (by decide), append_nil, getLast?_xorBuf,
        paddingByte, hsize, Nat.sub_self, drop_zero, hdecrypt, getD_some,
        getD_append _ _ _ _ (by simp [iv.size])]
    · have hlenDrop : (cipherText.drop 16).length = cipherText.length - 16 := length_drop
      have hposDrop := length_pos_iff.mpr hlast
      have hrest := ih (cipherText.drop 16).length (by omega) (firstBlock cipherText hlen)
        (by omega) hlast rfl
      rw [getLast?_append, hrest, some_or]
      congr 1
      -- the same last block, and the same byte before it
      have hblock : 16 + (cipherText.length - 16 - 16) = cipherText.length - 16 := by omega
      have hbefore : (iv.bytes ++ cipherText).getD (cipherText.length - 1) 0 =
          cipherText.getD (cipherText.length - 16 - 1) 0 := by
        rw [getD_append_right _ _ _ _ (by rw [iv.size]; omega), iv.size]
        congr 1
      rw [paddingByte, paddingByte, hlenDrop, drop_drop, ← hsplit, hblock, hbefore]

theorem toNat_sub_paddingSize_le {n : Nat} (hcap : n < 2 ^ 32) (paddingSize : Byte) :
    (ofNat 32 n - paddingSize.setWidth 32).toNat ≤ n ↔ paddingSize.toNat ≤ n := by
  have hbyte := paddingSize.isLt
  rw [BitVec.toNat_sub, toNat_ofNat, mod_eq_of_lt hcap, BitVec.toNat_setWidth,
    mod_eq_of_lt (by omega : paddingSize.toNat < 2 ^ 32)]
  rcases Nat.lt_or_ge n paddingSize.toNat with hlt | hle
  · rw [mod_eq_of_lt (by omega)]
    omega
  · rw [show 2 ^ 32 - paddingSize.toNat + n = (n - paddingSize.toNat) + 2 ^ 32 by omega,
      add_mod_right, mod_eq_of_lt (by omega)]
    omega

theorem decryptsSafely_rejected (hwhole : cipherText.length % 16 = 0)
    (hroom : cipherText.length ≤ plainText.length) (hcap : plainText.length < 2 ^ 32)
    (hreject : ¬Accepts key iv) :
    DecryptsSafely cipherText key iv plainText ↔ plainText.length = cipherText.length := by
  have hrun : aesCbcDecryptInto cipherText key iv plainText =
      some (plainText, ofNat 32 plainText.length) := by
    rw [aesCbcDecryptInto, if_neg (not_not.mpr hwhole)]
    by_cases hkey : key.length ∈ aesKeyLengths
    · rw [if_neg (not_not.mpr hkey), if_pos fun hiv => hreject ⟨hkey, hiv⟩]
    · rw [if_pos hkey]
  have hlen : (ofNat 32 plainText.length).toNat = plainText.length := by
    rw [toNat_ofNat, mod_eq_of_lt hcap]
  constructor
  · rintro ⟨plainText', n, hok, hle⟩
    obtain ⟨-, rfl⟩ := Prod.mk.inj (some.inj (hrun.symm.trans hok))
    omega
  · intro hsame
    exact ⟨_, _, hrun, by omega⟩

theorem decryptsSafely_accepted (hwhole : cipherText.length % 16 = 0)
    (hroom : cipherText.length ≤ plainText.length) (hcap : plainText.length < 2 ^ 32)
    (haccept : Accepts key iv) : DecryptsSafely cipherText key iv plainText ↔
      cipherText ≠ [] ∧ (paddingByte key iv cipherText).toNat ≤ cipherText.length := by
  obtain ⟨hkey, hiv⟩ := haccept
  obtain ⟨iv, rfl⟩ : ∃ b : Buf 16, iv = b.bytes := ⟨⟨iv, hiv⟩, rfl⟩
  have hrun := aesCbcDecryptInto_eq hkey iv hwhole hroom
  by_cases hne : cipherText = []
  · -- `PlainBlockStart - 1` wraps
    subst hne
    have hnone : aesCbcDecryptInto [] key iv.bytes plainText = none := by
      rw [hrun]
      dsimp only
      rw [getElem?_eq_none, map_none]
      rw [cbcDecryptBlocks, dif_neg (by decide), nil_append, length_nil, drop_zero]
      exact le_of_lt_succ hcap
    constructor
    · rintro ⟨plainText', n, hok, -⟩
      rw [hnone] at hok
      cases hok
    · exact fun h => absurd rfl h.1
  · have hcap' : cipherText.length < 2 ^ 32 := by omega
    have hbyte := getElem?_last hwhole hne hcap' plainText (aesDecryptBlock key) iv
    rw [getLast?_cbcDecryptBlocks hkey iv hwhole hne] at hbyte
    dsimp only at hrun
    rw [hbyte, map_some] at hrun
    -- the difference does not wrap exactly if the byte is at most the length
    rw [← toNat_sub_paddingSize_le hcap']
    constructor
    · rintro ⟨plainText', n, hok, hle⟩
      obtain ⟨-, rfl⟩ := Prod.mk.inj (some.inj (hrun.symm.trans hok))
      exact ⟨hne, hle⟩
    · exact fun h => ⟨_, _, hrun, h.2⟩

/-- **Arbitrary cipher texts** of whole blocks, in a buffer that is at least as long. -/
theorem decryptsSafely_iff (hwhole : cipherText.length % 16 = 0)
    (hroom : cipherText.length ≤ plainText.length) (hcap : plainText.length < 2 ^ 32) :
    DecryptsSafely cipherText key iv plainText ↔
      (Accepts key iv → cipherText ≠ [] ∧
        (paddingByte key iv cipherText).toNat ≤ cipherText.length) ∧
      (¬Accepts key iv → plainText.length = cipherText.length) := by
  by_cases haccept : Accepts key iv
  · rw [decryptsSafely_accepted hwhole hroom hcap haccept]
    exact ⟨fun h => ⟨fun _ => h, fun hno => absurd haccept hno⟩, fun h => h.1 haccept⟩
  · rw [decryptsSafely_rejected hwhole hroom hcap haccept]
    exact ⟨fun h => ⟨fun hyes => absurd hyes haccept, fun _ => h⟩, fun h => h.2 haccept⟩

/-- 256 bytes of zeros: no byte is more than their number. -/
theorem decryptsSafely_iff_zeros :
    DecryptsSafely (List.replicate 256 0) (List.replicate 16 0) (List.replicate 16 0)
      (List.replicate 300 0) := by
  have htext : (List.replicate 256 (0 : Byte)).length = 256 := List.length_replicate
  have hbuffer : (List.replicate 300 (0 : Byte)).length = 300 := List.length_replicate
  refine (decryptsSafely_iff ?_ ?_ ?_).mpr ⟨fun _ => ⟨?_, ?_⟩, fun hreject => ?_⟩
  · rw [htext]
  · rw [htext, hbuffer]
    decide
  · rw [hbuffer]
    decide
  · exact List.ne_nil_of_length_pos (by rw [htext]; decide)
  · rw [htext]
    exact Nat.le_of_lt (BitVec.isLt _)
  · exact absurd ⟨by decide, by decide⟩ hreject

/-- The empty text, and a block whose last byte decrypts to 255. -/
theorem not_decryptsSafely_empty_block :
    ¬DecryptsSafely [] (List.replicate 16 0) (List.replicate 16 0) (List.replicate 16 0) ∧
      ¬DecryptsSafely (aesEncryptBlock (List.replicate 16 0) (Buf.fill 16 255)).bytes
        (List.replicate 16 0) (List.replicate 16 0) (List.replicate 16 0) := by
  have haccept : Accepts (List.replicate 16 0) (List.replicate 16 0) := ⟨by decide, by decide⟩
  have hblock : (aesEncryptBlock (List.replicate 16 0) (Buf.fill 16 255)).bytes.length = 16 :=
    Buf.size _
  constructor
  · rw [decryptsSafely_accepted (by decide) (by decide) (by decide) haccept]
    exact fun h => h.1 rfl
  · rw [decryptsSafely_accepted (by rw [hblock]) (by rw [hblock]; decide) (by decide) haccept,
      paddingByte, hblock, Nat.sub_self, List.drop_zero, rtAesDecrypt_eq (by decide),
      aesDecryptBlock_encryptBlock]
    exact fun h => absurd h.2 (by decide)

end

end RalinkSdk.Crypt
