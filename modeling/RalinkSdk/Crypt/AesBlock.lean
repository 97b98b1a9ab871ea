import RalinkSdk.Crypt.AesRounds
import RalinkSdk.Crypt.AesCbc
import RalinkSdk.Lib.BlockMode

/-!
# AES on blocks

`RT_AES_Encrypt` and `RT_AES_Decrypt` as functions on blocks, for keys of a length that they accept.

## Main results

- `aesDecryptBlock_encryptBlock`, `aesEncryptBlock_decryptBlock`: they undo each other.
-/

namespace RalinkSdk.Crypt

open Lib Function List

/-! ## Buffers and blocks -/

/-- The bytes of a buffer as a function. -/
def blockOfBuf (b : Buf 16) : Block := fun i => b.bytes.getD i 0

def bufOfBlock (b : Block) : Buf 16 := ⟨ofFn b, length_ofFn⟩

theorem blockOfBuf_injective : Injective blockOfBuf := by
  intro a b h
  apply Buf.ext
  apply ext_getElem
  · rw [a.size, b.size]
  intro i hi hi'
  have hat := congrFun h ⟨i, a.size ▸ hi⟩
  rwa [blockOfBuf, blockOfBuf, getD_eq_getElem _ _ hi, getD_eq_getElem _ _ hi'] at hat

theorem bufOfBlock_injective : Injective bufOfBlock := fun _ _ h =>
  ofFn_injective (congrArg Buf.bytes h)

instance instFiniteByte : Finite (BitVec 8) :=
  Finite.of_injective BitVec.toFin fun _ _ => BitVec.eq_of_toFin_eq

instance instFiniteBuf16 : Finite (Buf 16) :=
  Finite.of_injective blockOfBuf blockOfBuf_injective

/-! ## The cipher -/

def aesEncryptBlock (key : List (BitVec 8)) (b : Buf 16) : Buf 16 :=
  ⟨storeState (encryptState (keyWordExpansion key) (key.length / 4 + 6) (loadState b.bytes)),
    length_storeState _⟩

def aesDecryptBlock (key : List (BitVec 8)) (b : Buf 16) : Buf 16 :=
  ⟨storeState (decryptState (keyWordExpansion key) (key.length / 4 + 6) (loadState b.bytes)),
    length_storeState _⟩

section

variable {key : List (BitVec 8)} (hkey : key.length ∈ aesKeyLengths) (b : Buf 16)

include hkey

theorem rtAesDecrypt_eq : rtAesDecrypt b.bytes key 16 = some (aesDecryptBlock key b).bytes := by
  refine if_neg ?_
  rintro (h | h | h)
  · exact absurd h (by decide)
  · exact h hkey
  · exact h b.size

end

section

variable (key : List (BitVec 8))

theorem aesDecryptBlock_encryptBlock (b : Buf 16) :
    aesDecryptBlock key (aesEncryptBlock key b) = b := by
  apply Buf.ext
  rw [aesDecryptBlock, aesEncryptBlock]
  dsimp only
  rw [loadState_storeState, show key.length / 4 + 6 = key.length / 4 + 5 + 1 from rfl,
    decryptState_encryptState, storeState_loadState b.size]

theorem aesEncryptBlock_injective : Injective (aesEncryptBlock key) :=
  Function.LeftInverse.injective (aesDecryptBlock_encryptBlock key)

theorem aesEncryptBlock_decryptBlock (b : Buf 16) :
    aesEncryptBlock key (aesDecryptBlock key b) = b :=
  Function.LeftInverse.rightInverse_of_surjective (aesDecryptBlock_encryptBlock key)
    (Finite.surjective_of_injective (aesEncryptBlock_injective key)) b

end

/-- AES with a key of 16 bytes. -/
def aes128 (key block : Block) : Block :=
  blockOfBuf (aesEncryptBlock (ofFn key) (bufOfBlock block))

theorem aes128_bijective (key : Block) : Function.Bijective (aes128 key) :=
  Finite.injective_iff_bijective.mp
    (blockOfBuf_injective.comp ((aesEncryptBlock_injective _).comp bufOfBlock_injective))

end RalinkSdk.Crypt
