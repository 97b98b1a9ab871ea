import Mathlib.Tactic.Ring
import RalinkSdk.Lib.Tlv

/-!
# AES-CBC

`AES_CBC_Encrypt` and `AES_CBC_Decrypt` with a key of 16 bytes, for arbitrary functions `E` and
`D` on blocks in the place of `RT_AES_Encrypt` and `RT_AES_Decrypt`.

## Source

`common/crypt_aes.c`.
-/

namespace RalinkSdk.Crypt

open Lib List Nat

variable (E D : Buf 16 → Buf 16)

/-- The exclusive or of two blocks. -/
def xorBuf {n : Nat} (a b : Buf n) : Buf n :=
  ⟨zipWith (· ^^^ ·) a.bytes b.bytes, by simp [a.size, b.size]⟩

theorem xorBuf_cancel {n : Nat} (a b : Buf n) : xorBuf (xorBuf a b) b = a := by
  obtain ⟨as, has⟩ := a
  obtain ⟨bs, hbs⟩ := b
  apply Buf.ext
  show zipWith (· ^^^ ·) (zipWith (· ^^^ ·) as bs) bs = as
  have hlen : as.length ≤ bs.length := by rw [has, hbs]
  clear has hbs
  induction as generalizing bs with
  | nil => simp
  | cons a as ih =>
    cases bs with
    | nil => simp at hlen
    | cons b bs =>
      simp only [zipWith_cons_cons, BitVec.xor_assoc, BitVec.xor_self, BitVec.xor_zero]
      rw [ih bs (by simpa using hlen)]

def firstBlock (text : List (BitVec 8)) (h : 16 ≤ text.length) : Buf 16 :=
  ⟨text.take 16, by simp [h]⟩

/-- The last block of a text: what is left of it, and the number of missing bytes in each of
    them. -/
def padded (text : List (BitVec 8)) (h : text.length < 16) : Buf 16 :=
  ⟨text ++ replicate (16 - text.length) (BitVec.ofNat 8 (16 - text.length)), by simp; omega⟩

/-- `AES_CBC_Encrypt`: `iv` is the initialization vector or the block before. -/
def aesCbcEncrypt (plainText : List (BitVec 8)) (iv : Buf 16) : List (BitVec 8) :=
  if h : 16 ≤ plainText.length then
    let cipherBlock := E (xorBuf (firstBlock plainText h) iv)
    cipherBlock.bytes ++ aesCbcEncrypt (plainText.drop 16) cipherBlock
  else (E (xorBuf (padded plainText (by omega)) iv)).bytes
termination_by plainText.length
decreasing_by simp; omega

def cbcDecryptBlocks (cipherText : List (BitVec 8)) (iv : Buf 16) : List (BitVec 8) :=
  if h : 16 ≤ cipherText.length then
    (xorBuf (D (firstBlock cipherText h)) iv).bytes ++
      cbcDecryptBlocks (cipherText.drop 16) (firstBlock cipherText h)
  else []
termination_by cipherText.length
decreasing_by simp; omega

/-- `AES_CBC_Decrypt` into a buffer, with the length it reports: the length of the buffer if the
    text is no whole number of blocks, else that of the blocks less the last byte. -/
def aesCbcDecrypt {n : Nat} (cipherText : List (BitVec 8)) (iv : Buf 16) (plainText : Buf n) :
    Option (Buf n × Int) :=
  if cipherText.length % 16 ≠ 0 then some (plainText, n)
  else do
    let plain := cbcDecryptBlocks D cipherText iv
    let paddingSize ← plain.getLast?
    some (← plainText.store plain, plain.length - paddingSize.toNat)

/-! ## The way back -/

def withPadding (text : List (BitVec 8)) : List (BitVec 8) :=
  text ++ replicate (16 - text.length % 16) (BitVec.ofNat 8 (16 - text.length % 16))

theorem length_withPadding (text : List (BitVec 8)) :
    (withPadding text).length = text.length / 16 * 16 + 16 := by
  have hmod := mod_lt text.length (by decide : 0 < 16)
  have hdiv := div_add_mod text.length 16
  simp only [withPadding, length_append, length_replicate]
  omega

theorem getLast?_withPadding (text : List (BitVec 8)) :
    (withPadding text).getLast? = some (BitVec.ofNat 8 (16 - text.length % 16)) := by
  rw [withPadding, getLast?_append]
  simp [getLast?_replicate]
  omega

theorem length_aesCbcEncrypt (text : List (BitVec 8)) (iv : Buf 16) :
    (aesCbcEncrypt E text iv).length = text.length / 16 * 16 + 16 := by
  induction hn : text.length using Nat.strong_induction_on generalizing text iv with
  | _ n ih =>
    rw [aesCbcEncrypt]
    split
    · next h =>
      have hrest := fun iv => ih (text.drop 16).length (by simp; omega) (text.drop 16) iv rfl
      rw [length_append, Buf.size, hrest]
      simp only [length_drop, hn] at h ⊢
      omega
    · next h =>
      rw [Buf.size]
      omega

theorem firstBlock_append (b : Buf 16) (rest : List (BitVec 8)) (h : 16 ≤ (b.bytes ++ rest).length) :
    firstBlock (b.bytes ++ rest) h = b := by
  apply Buf.ext
  simp [firstBlock, b.size]

/-- **The blocks come back**, with the padding. -/
theorem cbcDecryptBlocks_encrypt (hinv : ∀ b, D (E b) = b) (text : List (BitVec 8)) (iv : Buf 16) :
    cbcDecryptBlocks D (aesCbcEncrypt E text iv) iv = withPadding text := by
  induction hn : text.length using Nat.strong_induction_on generalizing text iv with
  | _ n ih =>
    rw [aesCbcEncrypt]
    split
    · next h =>
      have hlen : 16 ≤ ((E (xorBuf (firstBlock text h) iv)).bytes ++
          aesCbcEncrypt E (text.drop 16) (E (xorBuf (firstBlock text h) iv))).length := by
        simp [Buf.size]
      have hrest := ih (text.drop 16).length (by simp; omega) (text.drop 16)
        (E (xorBuf (firstBlock text h) iv)) rfl
      have hdrop : ((E (xorBuf (firstBlock text h) iv)).bytes ++
          aesCbcEncrypt E (text.drop 16) (E (xorBuf (firstBlock text h) iv))).drop 16 =
          aesCbcEncrypt E (text.drop 16) (E (xorBuf (firstBlock text h) iv)) :=
        drop_left' (Buf.size _)
      dsimp only
      rw [cbcDecryptBlocks, dif_pos hlen, firstBlock_append, hdrop, hrest, hinv, xorBuf_cancel]
      -- the first block and the rest, which has the same padding
      have hmod : (text.drop 16).length % 16 = text.length % 16 := by
        rw [length_drop]
        omega
      rw [withPadding, withPadding, hmod, ← append_assoc]
      congr 1
      exact take_append_drop 16 text
    · next h =>
      have hlen : 16 ≤ (E (xorBuf (padded text (by omega)) iv)).bytes.length := (Buf.size _).ge
      have hdrop : (E (xorBuf (padded text (by omega)) iv)).bytes.drop 16 = [] :=
        drop_eq_nil_of_le (Buf.size _).le
      have hfirst : firstBlock (E (xorBuf (padded text (by omega)) iv)).bytes hlen =
          E (xorBuf (padded text (by omega)) iv) := by
        apply Buf.ext
        exact take_of_length_le (Buf.size _).le
      have hmod : text.length % 16 = text.length := mod_eq_of_lt (by omega)
      rw [cbcDecryptBlocks, dif_pos hlen, hfirst, hdrop, hinv, xorBuf_cancel, cbcDecryptBlocks,
        dif_neg (by simp), append_nil, withPadding, hmod]
      rfl

/-- **Decryption inverts encryption**: the text stands at the start of the buffer, and the
    reported length is its length. -/
theorem aesCbcDecrypt_encrypt (hinv : ∀ b, D (E b) = b) {n : Nat} {text : List (BitVec 8)}
    (hfit : text.length / 16 * 16 + 16 ≤ n) (iv : Buf 16) (out : Buf n) :
    ∃ (out' : Buf n) (rest : List (BitVec 8)),
      aesCbcDecrypt D (aesCbcEncrypt E text iv) iv out = some (out', (text.length : Int)) ∧
      out'.bytes = text ++ rest := by
  have hblocks := cbcDecryptBlocks_encrypt E D hinv text iv
  have hpad := length_withPadding text
  have hmod := mod_lt text.length (by decide : 0 < 16)
  have hdiv := div_add_mod text.length 16
  have hlast := getLast?_withPadding text
  have hsize : (BitVec.ofNat 8 (16 - text.length % 16)).toNat = 16 - text.length % 16 := by
    rw [BitVec.toNat_ofNat]
    exact mod_eq_of_lt (by omega)
  obtain ⟨out', hstore⟩ : ∃ out', out.store (withPadding text) = some out' := by
    rw [Buf.store, dif_pos (by omega)]
    exact ⟨_, rfl⟩
  refine ⟨out', replicate (16 - text.length % 16) (BitVec.ofNat 8 (16 - text.length % 16)) ++
    out.bytes.drop (withPadding text).length, ?_, ?_⟩
  · rw [aesCbcDecrypt, if_neg (by rw [length_aesCbcEncrypt]; omega)]
    simp only [hblocks, hlast, hstore, bind, Option.bind, hsize, hpad]
    congr 2
    omega
  · rw [Buf.bytes_of_store hstore, withPadding, append_assoc]

end RalinkSdk.Crypt
