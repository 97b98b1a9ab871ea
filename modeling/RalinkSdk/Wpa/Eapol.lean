import RalinkSdk.Crypt.KeyWrap

/-!
# EAPOL-Key frames

The frame of the WPA handshakes, its MIC, the derivation of the pairwise key, and the builder
`ConstructEapolMsg` for the six messages of the 4-way and the group handshake.

## Conventions

- An array of fixed size on the wire is the bit vector of its bytes, first byte highest; comparing
  arrays with `RTMPCompareMemory` is then comparing numbers.
- `Crypto` holds the functions of `crypt_hmac.c` and `crypt_aes.c` that are used.
- The allocations of the builders succeed.

## Source

`common/cmm_wpa.c`, `include/dot11i_wpa.h`, `include/wpa_cmm.h`.
-/

namespace RalinkSdk.Wpa

open Lib Crypt BitVec
open BitVec (ofNat)

abbrev Nonce := BitVec 256
abbrev MacAddr := BitVec 48

/-- The bytes of an array, first byte first. -/
def beBytes (n : Nat) (x : BitVec (8 * n)) : List Byte :=
  (List.range n).map fun i => (x >>> (8 * (n - 1 - i))).setWidth 8

/-- The driver's hash and cipher functions.  `RT_AES_Decrypt` inverts `RT_AES_Encrypt`. -/
structure Crypto where
  /-- `RT_HMAC_MD5` -/
  hmacMd5 : List Byte → List Byte → BitVec 128
  /-- `RT_HMAC_SHA1` -/
  hmacSha1 : List Byte → List Byte → BitVec 160
  /-- `RT_AES_Encrypt` with a key of 16 bytes -/
  aesEncrypt : List Byte → Buf 16 → Buf 16
  /-- `RT_AES_Decrypt` with a key of 16 bytes -/
  aesDecrypt : List Byte → Buf 16 → Buf 16
  aesDecrypt_encrypt : ∀ key block, aesDecrypt key (aesEncrypt key block) = block

/-! ## Modes and messages -/

/-- `NDIS_802_11_AUTHENTICATION_MODE`, in its order. -/
inductive AuthMode where
  | open | shared | autoSwitch | wpa | wpaPsk | wpaNone | wpa2 | wpa2Psk | wpa1Wpa2
  | wpa1PskWpa2Psk
deriving DecidableEq, Repr

/-- `AuthMode >= Ndis802_11AuthModeWPA` -/
def AuthMode.isWpa : AuthMode → Bool
  | .open | .shared | .autoSwitch => false
  | _ => true

def AuthMode.isWpa2 : AuthMode → Bool
  | .wpa2 | .wpa2Psk => true
  | _ => false

/-- `Ndis802_11Encryption2Enabled` (TKIP), `Ndis802_11Encryption3Enabled` (AES) and the rest. -/
inductive WepStatus where
  | tkip | aes | other
deriving DecidableEq, Repr

/-- `EAPOL_PAIR_MSG_1` to `EAPOL_GROUP_MSG_2` -/
inductive MsgType where
  | pair1 | pair2 | pair3 | pair4 | group1 | group2
deriving DecidableEq, Repr

namespace MsgType

def num : MsgType → Nat
  | pair1 => 1
  | pair2 => 2
  | pair3 => 3
  | pair4 => 4
  | group1 => 5
  | group2 => 6

/-- The messages an authenticator sends. -/
def forSupplicant : MsgType → Bool
  | pair1 | pair3 | group1 => true
  | pair2 | pair4 | group2 => false

end MsgType

/-! ## Frames -/

structure KeyInfo where
  keyMic : Bool
  secure : Bool
  error : Bool
  request : Bool
  ekdDl : Bool
  rsvd : BitVec 3
  keyDescVer : BitVec 3
  /-- set for `PAIRWISEKEY` -/
  keyType : Bool
  keyIndex : BitVec 2
  install : Bool
  keyAck : Bool
deriving DecidableEq

/-- The two bytes of `KEY_INFO` on a little-endian machine. -/
def KeyInfo.bytes (k : KeyInfo) : List Byte :=
  [k.rsvd ++ ofBool k.ekdDl ++ ofBool k.request ++ ofBool k.error ++
      ofBool k.secure ++ ofBool k.keyMic,
    ofBool k.keyAck ++ ofBool k.install ++ k.keyIndex ++ ofBool k.keyType ++
      k.keyDescVer]

def keyDescTkip : BitVec 3 := 1

def keyDescAes : BitVec 3 := 2

/-- `EAPOL_PACKET`.  `keyData` is everything that follows the descriptor in the buffer. -/
structure EapolPacket where
  proVer : Byte
  proType : Byte
  bodyLen : BitVec 16
  type : Byte
  keyInfo : KeyInfo
  keyLength : BitVec 16
  replayCounter : BitVec 64
  keyNonce : Nonce
  keyIv : BitVec 128
  keyRsc : BitVec 64
  keyId : BitVec 64
  keyMic : BitVec 128
  keyDataLen : BitVec 16
  keyData : List Byte
deriving DecidableEq

def EapolPacket.bytes (p : EapolPacket) : List Byte :=
  [p.proVer, p.proType] ++ beBytes 2 p.bodyLen ++ [p.type] ++ p.keyInfo.bytes ++
    beBytes 2 p.keyLength ++ beBytes 8 p.replayCounter ++ beBytes 32 p.keyNonce ++
    beBytes 16 p.keyIv ++ beBytes 8 p.keyRsc ++ beBytes 8 p.keyId ++ beBytes 16 p.keyMic ++
    beBytes 2 p.keyDataLen ++ p.keyData

/-! ## Keys -/

/-- The key confirmation key: `PTK[0 .. LEN_PTK_KCK]`. -/
def kck (ptk : List Byte) : List Byte := ptk.take 16

/-- The key encryption key: `PTK[LEN_PTK_KCK .. LEN_PTK_KCK + LEN_PTK_KEK]`. -/
def kek (ptk : List Byte) : List Byte := (ptk.drop 16).take 16

variable (c : Crypto)

/-- `PRF`, without what it writes behind the `len` bytes that are asked for. -/
def prf (key label data : List Byte) (len : Nat) : List Byte :=
  ((List.range ((len + 19) / 20)).flatMap fun i =>
    beBytes 20 (c.hmacSha1 key (label ++ [0] ++ data ++ [ofNat 8 i]))).take len

def pairwiseLabel : List Byte :=
  [80, 97, 105, 114, 119, 105, 115, 101, 32, 107, 101, 121, 32, 101, 120, 112, 97, 110, 115, 105,
    111, 110]

/-- The input of `WpaDerivePTK`: both addresses and both nonces, the smaller first.  Where the
    nonces are equal, the larger address stands for them. -/
def ptkInput (aNonce : Nonce) (aa : MacAddr) (sNonce : Nonce) (sa : MacAddr) : List Byte :=
  let larger := if aa < sa then sa else aa
  let temp : Nonce := larger ++ (0 : BitVec 208)
  beBytes 6 (if aa < sa then aa else sa) ++ beBytes 6 larger ++
    beBytes 32 (if aNonce = sNonce then temp else if sNonce < aNonce then sNonce else aNonce) ++
    beBytes 32 (if aNonce = sNonce then temp else if sNonce < aNonce then aNonce else sNonce)

def wpaDerivePTK (pmk : List Byte) (aNonce : Nonce) (aa : MacAddr) (sNonce : Nonce)
    (sa : MacAddr) : List Byte :=
  prf c pmk pairwiseLabel (ptkInput aNonce aa sNonce sa) 64

def groupLabel : List Byte :=
  [71, 114, 111, 117, 112, 32, 107, 101, 121, 32, 101, 120, 112, 97, 110, 115, 105, 111, 110]

/-- `WpaDeriveGTK` of `LEN_TKIP_GTK` bytes. -/
def wpaDeriveGTK (gmk : List Byte) (gNonce : Nonce) (aa : MacAddr) : List Byte :=
  prf c gmk groupLabel (beBytes 6 aa ++ beBytes 32 gNonce) 32

/-- The MIC of a packet whose MIC field is zero, for the version AES and for any other. -/
def eapolMic (keyDescVer : BitVec 3) (ptk : List Byte) (p : EapolPacket) : BitVec 128 :=
  let buffer := p.bytes.take (p.bodyLen.toNat + 4)
  if keyDescVer = keyDescAes then (c.hmacSha1 (kck ptk) buffer >>> 32).setWidth 128
  else c.hmacMd5 (kck ptk) buffer

def calculateMIC (keyDescVer : BitVec 3) (ptk : List Byte) (p : EapolPacket) : EapolPacket :=
  { p with keyMic := eapolMic c keyDescVer ptk p }

/-! ## Building a message -/

/-- `RTMPInsertRSNIE` without a PMKID list: the information element of a body. -/
def rtmpInsertRSNIE (rsnIe : List Byte) : List Byte :=
  let ieNum : Byte := if (rsnIe.drop 2).take 3 = [0x00, 0x0f, 0xac] then 0x30 else 0xdd
  [ieNum, ofNat 8 rsnIe.length] ++ rsnIe

/-- `WPA_ConstructKdeHdr(KDE_GTK, data_len, ..)` -/
def gtkKdeHdr (dataLen : Nat) : List Byte :=
  [0xdd, ofNat 8 (4 + dataLen), 0x00, 0x0f, 0xac, 0x01]

def gtkLen (groupCipher : WepStatus) : Nat := if groupCipher = .aes then 16 else 32

/-- The padding in front of the AES key wrap. -/
def keyDataPad (len : Nat) : List Byte :=
  if len % 8 = 0 then [] else 0xdd :: List.replicate (8 - len % 8 - 1) 0

/-- What a message is made of. -/
structure MsgParams where
  msgType : MsgType
  wpa2 : Bool
  wepStatus : WepStatus
  groupCipher : WepStatus
  rCounter : BitVec 64
  ptk : List Byte
  defaultKeyIdx : Nat
  keyNonce : Nonce
  txRsc : BitVec 48
  gtk : List Byte
  rsnIe : List Byte

/-- The messages that carry the group key. -/
def MsgParams.gtkIncluded (m : MsgParams) : Bool :=
  (m.msgType = .pair3 && m.wpa2) || m.msgType = .group1

def plainKeyData (m : MsgParams) : List Byte :=
  (if m.rsnIe ≠ [] ∧ (m.msgType = .pair2 ∨ m.msgType = .pair3) then rtmpInsertRSNIE m.rsnIe
    else []) ++
  if m.gtkIncluded then
    (if m.wpa2 then
      gtkKdeHdr (2 + gtkLen m.groupCipher) ++ [ofNat 8 (m.defaultKeyIdx % 4), 0x00]
      else []) ++
    m.gtk.take (gtkLen m.groupCipher)
  else []

def constructEapolKeyData (m : MsgParams) (keyDescVer : BitVec 3) (keyIv : BitVec 128) :
    List Byte :=
  if m.msgType = .pair1 ∨ m.msgType = .pair4 ∨ m.msgType = .group2 then []
  else if m.gtkIncluded then
    if keyDescVer = keyDescAes then
      let keyData := plainKeyData m
      aesKeyWrap (c.aesEncrypt (kek m.ptk)) (keyData ++ keyDataPad keyData.length)
    else tkipGtkKeyWrap (kek m.ptk) (beBytes 16 keyIv) (plainKeyData m)
  else plainKeyData m

/-- The descriptor version: AES if either cipher is. -/
def keyDescVerOf (wepStatus groupCipher : WepStatus) : BitVec 3 :=
  if wepStatus = .aes ∨ groupCipher = .aes then keyDescAes else keyDescTkip

def keyInfoOf (m : MsgParams) : KeyInfo where
  keyMic := m.msgType ≠ .pair1
  secure := if m.wpa2 then 3 ≤ m.msgType.num else 5 ≤ m.msgType.num
  error := false
  request := false
  ekdDl := m.wpa2 && (m.msgType = .pair3 || m.msgType = .group1)
  rsvd := 0
  keyDescVer := keyDescVerOf m.wepStatus m.groupCipher
  keyType := m.msgType.num < 5
  keyIndex := if m.wpa2 = false ∧ 5 ≤ m.msgType.num then ofNat 2 m.defaultKeyIdx else 0
  install := m.msgType = .pair3
  keyAck := m.msgType.forSupplicant

def keyLengthOf (m : MsgParams) : BitVec 16 :=
  let pairwise : BitVec 16 := if m.wepStatus = .tkip then 32 else 16
  if m.wpa2 then if m.msgType = .pair1 ∨ m.msgType = .pair3 then pairwise else 0
  else if 5 ≤ m.msgType.num then if m.groupCipher = .tkip then 32 else 16
  else pairwise

/-- The IV of a WPA group message: half of the nonce, 2 added to its last byte. -/
def groupKeyIv (keyNonce : Nonce) : BitVec 128 :=
  let iv := keyNonce.setWidth 128
  (iv >>> 8).setWidth 120 ++ (iv.setWidth 8 + 2)

def constructEapolMsg (m : MsgParams) : EapolPacket :=
  let keyDescVer := keyDescVerOf m.wepStatus m.groupCipher
  let keyIv := if m.wpa2 = false ∧ m.msgType = .group1 then groupKeyIv m.keyNonce else 0
  let keyData := constructEapolKeyData c m keyDescVer keyIv
  let p : EapolPacket := {
    proVer := 1
    proType := 3
    bodyLen := ofNat 16 (95 + keyData.length)
    type := if m.wpa2 then 0x02 else 0xfe
    keyInfo := keyInfoOf m
    keyLength := keyLengthOf m
    replayCounter := m.rCounter
    keyNonce := if m.msgType.num ≤ 3 ∨ (m.wpa2 = false ∧ m.msgType = .group1) then m.keyNonce else 0
    keyIv := keyIv
    keyRsc := if m.gtkIncluded then m.txRsc ++ (0 : BitVec 16) else 0
    keyId := 0
    keyMic := 0
    keyDataLen := ofNat 16 keyData.length
    keyData := keyData }
  if m.msgType = .pair1 then p else calculateMIC c keyDescVer m.ptk p

/-! ## What a built message says -/

section

variable (m : MsgParams)

def MsgParams.keyIv : BitVec 128 :=
  if m.wpa2 = false ∧ m.msgType = .group1 then groupKeyIv m.keyNonce else 0

def MsgParams.builtKeyData : List Byte :=
  constructEapolKeyData c m (keyDescVerOf m.wepStatus m.groupCipher) m.keyIv

@[simp] theorem constructEapolMsg_keyInfo : (constructEapolMsg c m).keyInfo = keyInfoOf m := by
  unfold constructEapolMsg
  dsimp only
  split_ifs <;> rfl

@[simp] theorem constructEapolMsg_proVer : (constructEapolMsg c m).proVer = 1 := by
  unfold constructEapolMsg
  dsimp only
  split_ifs <;> rfl

@[simp] theorem constructEapolMsg_type :
    (constructEapolMsg c m).type = if m.wpa2 then 0x02 else 0xfe := by
  unfold constructEapolMsg
  dsimp only
  split_ifs <;> rfl

@[simp] theorem constructEapolMsg_replayCounter :
    (constructEapolMsg c m).replayCounter = m.rCounter := by
  unfold constructEapolMsg
  dsimp only
  split_ifs <;> rfl

@[simp] theorem constructEapolMsg_keyIv : (constructEapolMsg c m).keyIv = m.keyIv := by
  unfold constructEapolMsg
  dsimp only
  split <;> rfl

@[simp] theorem constructEapolMsg_keyData : (constructEapolMsg c m).keyData = m.builtKeyData c := by
  unfold constructEapolMsg
  dsimp only
  split <;> rfl

@[simp] theorem constructEapolMsg_keyDataLen :
    (constructEapolMsg c m).keyDataLen = ofNat 16 (m.builtKeyData c).length := by
  unfold constructEapolMsg
  dsimp only
  split <;> rfl

@[simp] theorem constructEapolMsg_bodyLen :
    (constructEapolMsg c m).bodyLen = ofNat 16 (95 + (m.builtKeyData c).length) := by
  unfold constructEapolMsg
  dsimp only
  split <;> rfl

@[simp] theorem constructEapolMsg_keyNonce : (constructEapolMsg c m).keyNonce =
    if m.msgType.num ≤ 3 ∨ (m.wpa2 = false ∧ m.msgType = .group1) then m.keyNonce else 0 := by
  unfold constructEapolMsg
  dsimp only
  split <;> rfl

theorem keyDescVerOf_cases (wepStatus groupCipher : WepStatus) :
    keyDescVerOf wepStatus groupCipher = keyDescTkip ∨
      keyDescVerOf wepStatus groupCipher = keyDescAes := by
  unfold keyDescVerOf
  split_ifs
  · exact .inr rfl
  · exact .inl rfl

theorem constructEapolMsg_keyMic (h : m.msgType ≠ .pair1) :
    (constructEapolMsg c m).keyMic = eapolMic c (keyDescVerOf m.wepStatus m.groupCipher) m.ptk
      { constructEapolMsg c m with keyMic := 0 } := by
  unfold constructEapolMsg
  dsimp only
  rw [if_neg h]
  rfl

end

end RalinkSdk.Wpa
