import Mathlib.Tactic.IntervalCases
import RalinkSdk.Ccmp.AesCcm

/-!
# CCMP in software

The authenticated data and the nonce are built from the header of the frame and from the packet
number; the body is encrypted in place, and decrypted eight bytes further down, over its own CCMP
header.

## Source

`common/cmm_aes.c`.
-/

namespace RalinkSdk.Ccmp

open Lib BitVec
open BitVec (ofNat)

/-! ## The header -/

def frameType (hdr : Bytes) : BitVec 8 := (hdr 0 >>> 2) &&& 0x03

def frameSubtype (hdr : Bytes) : BitVec 8 := (hdr 0 >>> 4) &&& 0x0f

def btypeData : BitVec 8 := 2

/-- `a4_exists`: `from_ds & to_ds`. -/
def a4Exists (hdr : Bytes) : Bool :=
  ((hdr 1 &&& 0x2) >>> 1) &&& (hdr 1 &&& 0x1) ≠ 0

/-- `qc_exists`: one of the four QoS subtypes. -/
def qcExists (hdr : Bytes) : Bool :=
  frameSubtype hdr = 8 ∨ frameSubtype hdr = 9 ∨ frameSubtype hdr = 10 ∨ frameSubtype hdr = 11

/-- `n` bytes from `p` on. -/
def bytesAt (mem : Bytes) (p n : Nat) : List (BitVec 8) := (List.range n).map (mem.at p)

def rtmpConstructCcmpAad (hdr : Bytes) (isDataFrame a4 qc : Bool) : List (BitVec 8) :=
  [if isDataFrame then hdr 0 &&& 0x8f else hdr 0, (hdr 1 &&& 0xc7) ||| 0x40] ++ bytesAt hdr 4 18 ++
    [hdr 22 &&& 0x0f, 0] ++ (if a4 then bytesAt hdr 24 6 else []) ++
    (if qc && a4 then [hdr 30 &&& 0x0f, 0]
      else if qc && !a4 then [hdr 24 &&& 0x0f, 0] else [])

/-- `RTMPConstructCCMPNonce`; the priority is zero where there is no QoS control field. -/
def rtmpConstructCcmpNonce (hdr : Bytes) (a4 qc : Bool) (pn : Bytes) : List (BitVec 8) :=
  [if qc && a4 then hdr 30 &&& 0x0f else if qc && !a4 then hdr 24 &&& 0x0f else 0] ++
    bytesAt hdr 10 6 ++ (List.range 6).map fun i => pn (5 - i)

def rtmpConstructCcmpHdr (keyIdx : BitVec 8) (pn : Bytes) : List (BitVec 8) :=
  [pn 0, pn 1, 0, (keyIdx <<< 6) ||| 0x20, pn 2, pn 3, pn 4, pn 5]

/-- The authenticated data of a frame. -/
def aadOf (hdr : Bytes) : List (BitVec 8) :=
  rtmpConstructCcmpAad hdr (frameType hdr = btypeData) (a4Exists hdr) (qcExists hdr)

def nonceOf (hdr pn : Bytes) : List (BitVec 8) :=
  rtmpConstructCcmpNonce hdr (a4Exists hdr) (qcExists hdr) pn

/-! ## Encryption and decryption -/

/-- The fields of `CIPHER_KEY` that are used here. -/
structure CipherKey where
  key : Block
  keyLen : BitVec 8

section

variable (E : Block → Block → Block)

def rtmpSoftEncryptCcmp (hdr iv : Bytes) (key : Block) (mem : Bytes) (pData : Nat)
    (dataLen : BitVec 32) : Bool × Bytes :=
  match aesCcmEncrypt E mem pData dataLen key 16 (nonceOf hdr iv) (aadOf hdr) 8 pData
    (dataLen + 8) with
  | (ret, mem, _) => (decide (ret = 0), mem)

/-- The packet number in a CCMP header. -/
def pnOf (ccmpHdr : Bytes) : Bytes := fun i => if i < 2 then ccmpHdr i else ccmpHdr (i + 2)

/-- `RTMPSoftDecryptCCMP`: the verdict, the memory and `*DataLen`. -/
def rtmpSoftDecryptCcmp (hdr : Bytes) (key : CipherKey) (mem : Bytes) (pData : Nat)
    (dataLen : BitVec 16) : Bool × Bytes × BitVec 16 :=
  if key.keyLen = 0 then (false, mem, dataLen)
  else
    let pn := pnOf (mem.at pData)
    match aesCcmDecrypt E mem (pData + 8) (dataLen.setWidth 32 - 8) key.key 16 (nonceOf hdr pn)
      (aadOf hdr) 8 pData (dataLen.setWidth 32) with
    | (ret, mem, outLen) =>
      if ret = 0 then (true, mem, outLen.setWidth 16) else (false, mem, dataLen)

/-! ## What they compute -/

theorem nonceOf_length (hdr pn : Bytes) : (nonceOf hdr pn).length = 13 := by
  simp [nonceOf, rtmpConstructCcmpNonce, bytesAt]

theorem nonceOf_congr (hdr : Bytes) {pn pn' : Bytes} (h : ∀ i < 6, pn i = pn' i) :
    nonceOf hdr pn = nonceOf hdr pn' := by
  unfold nonceOf rtmpConstructCcmpNonce
  congr 1
  apply List.map_congr_left
  intro i _
  exact h _ (by omega)

variable (hdr : Bytes) (mem : Bytes) (n : Nat)

/-- The MIC of a payload, before it is encrypted. -/
def micOf (pn : Bytes) (key : Block) (payload : Bytes) : Block :=
  aesCcmMac E payload n key (nonceOf hdr pn) (aadOf hdr) 8

/-- The first counter block of a frame. -/
def counterOf (pn : Bytes) : Block := formatCounter (nonceOf hdr pn)

/-- **Encryption**: the payload is combined with the stream and followed by its MIC. -/
theorem rtmpSoftEncryptCcmp_eq (pn : Bytes) (key : Block) (p : Nat) (hn : n < 2 ^ 32 - 8) :
    rtmpSoftEncryptCcmp E hdr pn key mem p (ofNat 32 n) =
      (true, memcpy (xorStream (ccmStream E key (counterOf hdr pn)) mem p p n) (p + n)
        (fun i => (micOf E hdr n pn key (mem.at p)).xor (E key (counterOf hdr pn)) (Fin.ofNat 16 i))
        8) := by
  have htoNat : (ofNat 32 n).toNat = n := by
    rw [toNat_ofNat]
    omega
  have hroom : ¬ ofNat 32 n + 8 < ofNat 32 n + ofNat 32 8 :=
    BitVec.lt_irrefl _
  unfold rtmpSoftEncryptCcmp aesCcmEncrypt
  dsimp only
  rw [nonceOf_length, if_neg (by decide), if_neg (by decide), if_neg (by decide), if_neg hroom,
    htoNat, cipherLoop_eq E key _ (.inl le_rfl)]
  rfl

theorem aesCcmDecrypt_eq (cipher : Nat) (cipherLength : BitVec 32) (key : Block)
    (nonce aad : List (BitVec 8)) (hnonce : nonce.length = 13) (plain : Nat)
    (plainLength : BitVec 32) (hroom : ¬ plainLength < cipherLength - ofNat 32 8)
    (hle : plain ≤ cipher) :
    aesCcmDecrypt E mem cipher cipherLength key 16 nonce aad 8 plain plainLength =
      let length := cipherLength - ofNat 32 8
      let ctr := formatCounter nonce
      let mem' := xorStream (ccmStream E key ctr) mem plain cipher length.toNat
      if sameBytes (fun i => mem (cipher + length.toNat + i) ^^^ E key ctr i)
          (aesCcmMac E (mem'.at plain) length.toNat key nonce aad 8) 8
      then (0, mem', length) else (-5, mem', length) := by
  unfold aesCcmDecrypt
  dsimp only
  rw [hnonce, if_neg (by decide), if_neg (by decide), if_neg (by decide), if_neg hroom,
    cipherLoop_eq E key _ (.inl hle)]

section

variable (key : Block) (body : Bytes) (q : Nat)

/-- The first counter block of a body that starts with a CCMP header. -/
def bodyCounter : Block := counterOf hdr (pnOf (body.at q))

/-- Memory after the body has been decrypted. -/
def plainMem : Bytes := xorStream (ccmStream E key (bodyCounter hdr body q)) body q (q + 8) n

def sentMic : Block := fun i => body (q + 8 + n + i) ^^^ E key (bodyCounter hdr body q) i

/-- The MIC of the decrypted payload is the one that was sent. -/
def micMatches : Bool :=
  sameBytes (sentMic E hdr n key body q)
    (micOf E hdr n (pnOf (body.at q)) key ((plainMem E hdr n key body q).at q)) 8

end

/-- **Decryption**: the body is combined with the stream eight bytes further down, and the MIC of
    the result is compared with the one that was sent. -/
theorem rtmpSoftDecryptCcmp_eq (key : CipherKey) (hkey : key.keyLen ≠ 0) (p : Nat)
    (hn : n ≤ 65519) : rtmpSoftDecryptCcmp E hdr key mem p (ofNat 16 (n + 16)) =
      (micMatches E hdr n key.key mem p, plainMem E hdr n key.key mem p,
        ofNat 16 (if micMatches E hdr n key.key mem p then n else n + 16)) := by
  have hlen : (ofNat 16 (n + 16)).setWidth 32 - 8 - ofNat 32 8 = ofNat 32 n := by
    apply eq_of_toNat_eq
    simp only [toNat_sub, toNat_setWidth, toNat_ofNat, BitVec.reduceToNat]
    omega
  have htoNat : (ofNat 32 n).toNat = n := by
    rw [toNat_ofNat]
    omega
  have hout : (ofNat 32 n).setWidth 16 = ofNat 16 n := by
    apply eq_of_toNat_eq
    simp only [toNat_setWidth, toNat_ofNat]
    omega
  have hroom : ¬ (ofNat 16 (n + 16)).setWidth 32 < ofNat 32 n := by
    rw [lt_def]
    simp only [toNat_setWidth, toNat_ofNat]
    omega
  have hccm := aesCcmDecrypt_eq E mem (p + 8) ((ofNat 16 (n + 16)).setWidth 32 - 8) key.key
    (nonceOf hdr (pnOf (mem.at p))) (aadOf hdr) (nonceOf_length hdr _) p
    ((ofNat 16 (n + 16)).setWidth 32) (hlen ▸ hroom) (Nat.le_add_right p 8)
  dsimp only at hccm
  rw [hlen, htoNat] at hccm
  unfold rtmpSoftDecryptCcmp
  dsimp only
  rw [if_neg hkey]
  split at hccm
  · next hsame =>
    have hmatch : micMatches E hdr n key.key mem p = true := hsame
    rw [hccm, hmatch]
    exact congrArg (fun len => (true, plainMem E hdr n key.key mem p, len)) hout
  · next hsame =>
    have hmatch : micMatches E hdr n key.key mem p = false := Bool.not_eq_true _ ▸ hsame
    rw [hccm, hmatch]
    rfl

theorem plainMem_sent {pn payload body : Bytes} {key : Block} {q : Nat}
    (hpn : ∀ i < 6, pnOf (body.at q) i = pn i)
    (hcipher : ∀ i < n, body (q + 8 + i) = payload i ^^^ ccmStream E key (counterOf hdr pn) i) :
    ∀ i < n, plainMem E hdr n key body q (q + i) = payload i := by
  intro i hi
  have hctr : bodyCounter hdr body q = counterOf hdr pn := by
    rw [bodyCounter, counterOf, nonceOf_congr hdr hpn, counterOf]
  rw [plainMem, hctr, xorStream_add hi, hcipher i hi, xor_assoc, BitVec.xor_self,
    xor_zero]

theorem micMatches_sent {pn payload body : Bytes} {key : Block} {q : Nat}
    (hpn : ∀ i < 6, pnOf (body.at q) i = pn i)
    (hcipher : ∀ i < n, body (q + 8 + i) = payload i ^^^ ccmStream E key (counterOf hdr pn) i)
    (hmic : ∀ i : Fin 16, i.val < 8 → body (q + 8 + n + i) =
      micOf E hdr n pn key payload i ^^^ E key (counterOf hdr pn) i) :
    micMatches E hdr n key body q = true := by
  have hctr : bodyCounter hdr body q = counterOf hdr pn := by
    rw [bodyCounter, counterOf, nonceOf_congr hdr hpn, counterOf]
  have hmac : micOf E hdr n (pnOf (body.at q)) key ((plainMem E hdr n key body q).at q) =
      micOf E hdr n pn key payload := by
    rw [micOf, nonceOf_congr hdr hpn]
    exact aesCcmMac_congr E (plainMem_sent E hdr n hpn hcipher) key _ _ 8
  rw [micMatches, hmac, sameBytes, decide_eq_true_iff]
  intro i hi
  rw [sentMic, hmic i hi, hctr, xor_assoc, BitVec.xor_self, xor_zero]

/-- **CCMP in software, there and back**: for every header, key, packet number, key index and
    payload of up to 65519 bytes, decryption accepts what encryption has produced, restores
    the payload at the start of the buffer and tells its length.  The cipher text may have been
    moved to any place in between. -/
theorem soft_ccmp_round_trip (pn : Bytes) (keyIdx : BitVec 8) (key : Block) (p : Nat)
    (mem' : Bytes) (q : Nat) (hn : n ≤ 65519) :
    let out := rtmpSoftEncryptCcmp E hdr pn key mem p (BitVec.ofNat 32 n)
    let ccmpHdr : Bytes := fun i => (rtmpConstructCcmpHdr keyIdx pn).getD i 0
    let body := memcpy (memcpy mem' q ccmpHdr 8) (q + 8) (out.2.at p) (n + 8)
    let back := rtmpSoftDecryptCcmp E hdr ⟨key, 16⟩ body q (BitVec.ofNat 16 (n + 16))
    out.1 = true ∧ back.1 = true ∧ back.2.2 = BitVec.ofNat 16 n ∧
      ∀ i < n, back.2.1 (q + i) = mem (p + i) := by
  dsimp only
  rw [rtmpSoftEncryptCcmp_eq E hdr mem n pn key p (by omega)]
  dsimp only
  refine ⟨rfl, ?_⟩
  generalize hbody : memcpy (memcpy mem' q _ 8) (q + 8) _ (n + 8) = body
  have hhdr : ∀ i < 8, body (q + i) = (rtmpConstructCcmpHdr keyIdx pn).getD i 0 := by
    intro i hi
    rw [← hbody, memcpy_of_lt (by omega), memcpy_add hi]
  have hpn : ∀ i < 6, pnOf (body.at q) i = pn i := by
    intro i hi
    interval_cases i <;> exact hhdr _ (by decide)
  have hcipher : ∀ i < n, body (q + 8 + i) =
      mem.at p i ^^^ ccmStream E key (counterOf hdr pn) i := by
    intro i hi
    rw [← hbody, memcpy_add (by omega : i < n + 8), Bytes.at, memcpy_of_lt (by omega),
      xorStream_add hi]
    rfl
  have hmic : ∀ i : Fin 16, i.val < 8 → body (q + 8 + n + i) =
      micOf E hdr n pn key (mem.at p) i ^^^ E key (counterOf hdr pn) i := by
    intro i hi
    rw [← hbody, Nat.add_assoc (q + 8), memcpy_add (by omega : n + i.val < n + 8), Bytes.at,
      ← Nat.add_assoc, memcpy_add hi]
    simp [Block.xor]
  have hmatch := micMatches_sent E hdr n hpn hcipher hmic
  rw [rtmpSoftDecryptCcmp_eq E hdr body n ⟨key, 16⟩ (by decide : (16 : BitVec 8) ≠ 0) q hn, hmatch]
  exact ⟨rfl, rfl, plainMem_sent E hdr n hpn hcipher⟩

end

/-! ### The test vector -/

/-- The header of `CCMP_test_vector`. -/
def testHdr : Bytes := fun i =>
  [0x08, 0x48, 0xc3, 0x2c, 0x0f, 0xd2, 0xe1, 0x28, 0xa5, 0x7c, 0x50, 0x30, 0xf1, 0x84, 0x44, 0x08,
    0xab, 0xae, 0xa5, 0xb8, 0xfc, 0xba, 0x80, 0x33].getD i 0

/-- Its packet number. -/
def testPn : Bytes := fun i => [0x0c, 0xe7, 0x76, 0x97, 0x03, 0xb5].getD i 0

def testKey : Block := fun i =>
  [0xc9, 0x7c, 0x1f, 0x67, 0xce, 0x37, 0x11, 0x85, 0x51, 0x4a, 0x8a, 0x19, 0xf2, 0xbd, 0xd5,
    0x2f].getD i 0

def testPlain : Bytes := fun i =>
  [0xf8, 0xba, 0x1a, 0x55, 0xd0, 0x2f, 0x85, 0xae, 0x96, 0x7b, 0xb6, 0x2f, 0xb6, 0xcd, 0xa8, 0xeb,
    0x7e, 0x78, 0xa0, 0x50].getD i 0

example : aadOf testHdr = [0x08, 0x40, 0x0f, 0xd2, 0xe1, 0x28, 0xa5, 0x7c, 0x50, 0x30, 0xf1, 0x84,
    0x44, 0x08, 0xab, 0xae, 0xa5, 0xb8, 0xfc, 0xba, 0x00, 0x00] := by decide +kernel

example : nonceOf testHdr testPn = [0x00, 0x50, 0x30, 0xf1, 0x84, 0x44, 0x08, 0xb5, 0x03, 0x97, 0x76,
    0xe7, 0x0c] := by decide +kernel

theorem soft_ccmp_round_trip_test_vector :
    let out := rtmpSoftEncryptCcmp Block.xor testHdr testPn testKey testPlain 0 20
    let ccmpHdr : Bytes := fun i => (rtmpConstructCcmpHdr 0 testPn).getD i 0
    let body := memcpy (memcpy (fun _ => 0) 0 ccmpHdr 8) 8 (out.2.at 0) 28
    let back := rtmpSoftDecryptCcmp Block.xor testHdr ⟨testKey, 16⟩ body 0 36
    20 ≤ 65519 ∧ out.1 = true ∧ back.1 = true ∧ back.2.2 = 20 ∧
      ∀ i < 20, back.2.1 (0 + i) = testPlain (0 + i) :=
  ⟨by decide, soft_ccmp_round_trip Block.xor testHdr testPlain 20 testPn 0 testKey 0 (fun _ => 0) 0
    (by decide)⟩

end RalinkSdk.Ccmp
