import RalinkSdk.Crypt.AesCbc
import RalinkSdk.Wps.RegData

/-!
# The messages that Wi-Fi Protected Setup sends

`BuildMessageM1` to `BuildMessageM8` and `BuildMessageM2D`, for arbitrary functions in the place
of the driver's hash, cipher and Diffie-Hellman step.  A message is the list of the attributes
that the code appends; `encodeAll` gives the bytes.  Random bytes, the uninitialized memory that
serves as initialization vector and the profile that `WscCreateProfileFromCfg` makes are
arguments.

## Source

`common/wsc_tlv.c`, `common/wsc_v2.c`.
-/

namespace RalinkSdk.Wps

open Lib Crypt

/-! ## Keys and hashes -/

/-- The functions that the protocol rests on. -/
structure CryptFns where
  rtSha256 : List Byte → Buf 32
  /-- Key and message. -/
  rtHmacSha256 : List Byte → List Byte → Buf 32
  /-- Key and block. -/
  rtAesEncrypt : Buf 16 → Buf 16 → Buf 16
  rtAesDecrypt : Buf 16 → Buf 16 → Buf 16
  /-- The public key of a private key. -/
  rtDhPublicKeyGenerate : Buf 192 → Buf 192
  /-- The secret of the other side's public key and the own private key. -/
  rtDhSecretKeyGenerate : Buf 192 → Buf 192 → Buf 192
  /-- Decryption inverts encryption. -/
  decrypt_encrypt : ∀ key block, rtAesDecrypt key (rtAesEncrypt key block) = block

variable (crypt : CryptFns)

/-- The four bytes of a number, the high byte first. -/
def be32 (x : BitVec 32) : List Byte :=
  [x.extractLsb' 24 8, x.extractLsb' 16 8, x.extractLsb' 8 8, x.extractLsb' 0 8]

/-- `Wsc_Personal_String`: "Wi-Fi Easy and Secure Key Derivation". -/
def wscPersonalString : List Byte :=
  [0x57, 0x69, 0x2D, 0x46, 0x69, 0x20, 0x45, 0x61, 0x73, 0x79, 0x20, 0x61, 0x6E, 0x64, 0x20,
    0x53, 0x65, 0x63, 0x75, 0x72, 0x65, 0x20, 0x4B, 0x65, 0x79, 0x20, 0x44, 0x65, 0x72, 0x69,
    0x76, 0x61, 0x74, 0x69, 0x6F, 0x6E]

/-- One round of `WscDeriveKey` for 640 bits. -/
def deriveRound (kdk : Buf 32) (i : BitVec 32) : Buf 32 :=
  crypt.rtHmacSha256 kdk.bytes (be32 i ++ wscPersonalString ++ be32 640)

/-- `WscDeriveKey` for 640 bits: the first 80 bytes of the three rounds. -/
def wscDeriveKey (kdk : Buf 32) : Buf 80 :=
  (⟨(deriveRound crypt kdk 1).bytes ++ (deriveRound crypt kdk 2).bytes ++
    (deriveRound crypt kdk 3).bytes, by simp [Buf.size]⟩ : Buf 96).first 80 (by decide)

/-- The keys of a run from the secret, the nonce and the address of the enrollee, and the nonce
    of the registrar. -/
def WscRegData.deriveKeys (r : WscRegData) (secretKey : Buf 192) (enrolleeNonce : Buf 16)
    (enrolleeMac : Buf 6) (registrarNonce : Buf 16) : WscRegData :=
  let dhKey := crypt.rtSha256 secretKey.bytes
  let kdk := crypt.rtHmacSha256 dhKey.bytes
    (enrolleeNonce.bytes ++ enrolleeMac.bytes ++ registrarNonce.bytes)
  let kdfKey := wscDeriveKey crypt kdk
  { r with
    secretKey
    authKey := kdfKey.first 32 (by decide)
    keyWrapKey := kdfKey.slice 32 16 (by decide)
    emsk := kdfKey.slice 48 32 (by decide) }

def WscRegData.pinHalf1 (r : WscRegData) : List Byte :=
  if r.pinCodeLen = 4 then r.pin.bytes.take 2 else r.pin.bytes.take 4

def WscRegData.pinHalf2 (r : WscRegData) : List Byte :=
  if r.pinCodeLen = 4 then (r.pin.bytes.drop 2).take 2 else (r.pin.bytes.drop 4).take 4

/-- The PSK of a half of the PIN. -/
def pskOf (authKey : Buf 32) (half : List Byte) : Buf 16 :=
  (crypt.rtHmacSha256 authKey.bytes half).first 16 (by decide)

/-- The hash that commits to a nonce and to a half of the PIN. -/
def WscRegData.hashOf (r : WscRegData) (snonce psk : Buf 16) : Buf 32 :=
  crypt.rtHmacSha256 r.authKey.bytes (snonce.bytes ++ psk.bytes ++ r.pke.bytes ++ r.pkr.bytes)

/-! ## Parts of the messages -/

/-- One attribute after the other. -/
def appendAll (attrs : List (Option Attr)) : Option (List Attr) := attrs.mapM id

def wscGenV2Msg (c : WscCtrl) : Attr :=
  ⟨WscId.vendorExt.type, [0x00, 0x37, 0x2A, 0x00, 0x01, c.regData.selfInfo.version2]⟩

def v2Attrs (c : WscCtrl) : List Attr :=
  if c.bEnableWpsV2 then wscGenV2Msg c :: c.extraTlv.toList else []

def sentConfigMethods (c : WscCtrl) : BitVec 16 :=
  if c.bEnableWpsV2 then
    if c.wscMode = .pin then c.wscConfigMethods &&& 0x200F else c.wscConfigMethods &&& 0x02F0
  else c.wscConfigMethods &&& 0x00FF

/-- The flags in M1, M2 and M2D. -/
def flagAttrs (d : WscDevInfo) : List (Option Attr) :=
  [appendWscTlv .authTypeFlags d.authTypeFlags.bytes 0,
    appendWscTlv .encrTypeFlags d.encrTypeFlags.bytes 0,
    appendWscTlv .connTypeFlags [d.connTypeFlags] 0]

/-- The description of the device in M1, M2 and M2D. -/
def deviceAttrs (d : WscDevInfo) : List (Option Attr) :=
  [appendString .manufacturer d.manufacturer,
    appendString .modelName d.modelName,
    appendString .modelNumber d.modelNumber,
    appendString .serialNum d.serialNumber,
    appendWscTlv .primDevType d.priDeviceType.bytes 0,
    appendString .deviceName d.deviceName,
    appendWscTlv .rfBand [d.rfBand] 0,
    appendWscTlv .assocState d.assocState.bytes 0]

def hmacDataSize : Nat := 2048

/-- Append the Authenticator: the first 8 bytes of the HMAC over the last message received and
    the message so far. -/
def appendAuthenticator (r : WscRegData) (msg : List Attr) : Option (List Attr) :=
  if r.lastRx.length + (encodeAll msg).length ≤ hmacDataSize then do
    let hmac := crypt.rtHmacSha256 r.authKey.bytes (r.lastRx.bytes ++ encodeAll msg)
    some (msg ++ [← appendWscTlv .authenticator hmac.bytes 0])
  else none

/-- The encrypted settings: the initialization vector, and the attributes with their
    Key-Wrap-Authenticator in AES-CBC. -/
def encrSettings (r : WscRegData) (iv : Buf 16) (plain : List Attr) : Option Attr := do
  let hmac := crypt.rtHmacSha256 r.authKey.bytes (encodeAll plain)
  let plain := plain ++ [← appendWscTlv .keyWrapAuth hmac.bytes 0]
  let encrData := aesCbcEncrypt (crypt.rtAesEncrypt r.keyWrapKey) (encodeAll plain) iv
  appendWscTlv .encrSettings (iv.bytes ++ encrData) (16 + encrData.length)

def saveLastTx (c : WscCtrl) (msg : List Attr) : Option WscCtrl := do
  let lastTx ← c.regData.lastTx.save (encodeAll msg)
  some (c.onReg fun r => { r with lastTx })

/-! ## The messages -/

def buildMessageM1 (selfNonce : Buf 16) (c : WscCtrl) : Option (List Attr × WscCtrl) := do
  let c := c.onReg fun r => { r with selfNonce, enrolleeNonce := selfNonce }
  let c := if c.opMode = .apMode then
      c.onReg fun r => { r with selfInfo := { r.selfInfo with scState := c.wscConfStatus } }
    else c
  let self := c.regData.selfInfo
  let msg ← appendAll (
    [appendWscTlv .version [self.version] 0,
      appendWscTlv .msgType [0x04] 0,
      appendWscTlv .uuidE c.wscUuidE.bytes 0,
      appendWscTlv .macAddr self.macAddr.bytes 0,
      appendWscTlv .enrolleeNonce c.regData.selfNonce.bytes 0,
      appendWscTlv .publicKey c.regData.pke.bytes 0] ++
    flagAttrs self ++
    [appendWscTlv .configMethods (be16 (sentConfigMethods c)) 0,
      appendWscTlv .scState [self.scState] 0] ++
    deviceAttrs self ++
    [appendWscTlv .devicePwdId self.devPwdId.bytes 0,
      appendWscTlv .configError [0, 0] 0,
      appendWscTlv .osVersion self.osVersion.bytes 0])
  -- the extra attribute is appended twice
  let msg := msg ++ v2Attrs c ++ (if c.bEnableWpsV2 then c.extraTlv.toList else [])
  let c ← if c.bUpnpMsgTimerRunning ∨ (c.wscUseUpnp ∧ c.eapMsgRunning) then some c
    else saveLastTx c msg
  some (msg, c)

def buildMessageM2 (selfNonce : Buf 16) (c : WscCtrl) : Option (List Attr × WscCtrl) := do
  let secretKey := crypt.rtDhSecretKeyGenerate c.regData.pke c.regData.enrolleeRandom
  let c := c.onReg fun r => { r with secretKey, selfNonce, registrarNonce := selfNonce }
  let self := c.regData.selfInfo
  let msg ← appendAll (
    [appendWscTlv .version [self.version] 0,
      appendWscTlv .msgType [0x05] 0,
      appendWscTlv .enrolleeNonce c.regData.enrolleeNonce.bytes 0,
      appendWscTlv .registrarNonce c.regData.registrarNonce.bytes 0,
      appendWscTlv .uuidR self.uuid.bytes 0,
      appendWscTlv .publicKey c.regData.pkr.bytes 0] ++
    flagAttrs self ++
    [appendWscTlv .configMethods (be16 (sentConfigMethods c)) 0] ++
    deviceAttrs self ++
    [appendWscTlv .configError self.configError.bytes 0,
      appendWscTlv .devicePwdId self.devPwdId.bytes 0,
      appendWscTlv .osVersion self.osVersion.bytes 0])
  let c := c.onReg fun r =>
    r.deriveKeys crypt secretKey r.enrolleeNonce r.peerInfo.macAddr r.registrarNonce
  let msg ← appendAuthenticator crypt c.regData (msg ++ v2Attrs c)
  let c ← saveLastTx c msg
  some (msg, c)

def buildMessageM2D (c : WscCtrl) : Option (List Attr) := do
  let self := c.regData.selfInfo
  let msg ← appendAll (
    [appendWscTlv .version [self.version] 0,
      appendWscTlv .msgType [0x06] 0,
      appendWscTlv .enrolleeNonce c.regData.enrolleeNonce.bytes 0,
      appendWscTlv .registrarNonce c.regData.selfNonce.bytes 0,
      appendWscTlv .uuidR self.uuid.bytes 0] ++
    flagAttrs self ++
    [appendWscTlv .configMethods self.configMethods.bytes 0] ++
    deviceAttrs self ++
    [appendWscTlv .configError self.configError.bytes 0,
      appendWscTlv .osVersion self.osVersion.bytes 0])
  some (msg ++ v2Attrs c)

def buildMessageM3 (c : WscCtrl) : Option (List Attr × WscCtrl) := do
  let psk1 := pskOf crypt c.regData.authKey c.regData.pinHalf1
  let psk2 := pskOf crypt c.regData.authKey c.regData.pinHalf2
  let eHash1 := c.regData.hashOf crypt c.regData.es1 psk1
  let eHash2 := c.regData.hashOf crypt c.regData.es2 psk2
  let c := c.onReg fun r => { r with psk1, psk2, eHash1, eHash2 }
  let msg ← appendAll
    [appendWscTlv .version [c.regData.selfInfo.version] 0,
      appendWscTlv .msgType [0x07] 0,
      appendWscTlv .registrarNonce c.regData.registrarNonce.bytes 0,
      appendWscTlv .eHash1 eHash1.bytes 0,
      appendWscTlv .eHash2 eHash2.bytes 0]
  let msg ← appendAuthenticator crypt c.regData (msg ++ v2Attrs c)
  let c ← saveLastTx c msg
  some (msg, c)

/-- `BuildMessageM4`: the registrar's nonces are in the fields `Es1` and `Es2` too. -/
def buildMessageM4 (iv : Buf 16) (c : WscCtrl) : Option (List Attr × WscCtrl) := do
  let psk1 := pskOf crypt c.regData.authKey c.regData.pinHalf1
  let psk2 := pskOf crypt c.regData.authKey c.regData.pinHalf2
  let rHash1 := c.regData.hashOf crypt c.regData.es1 psk1
  let rHash2 := c.regData.hashOf crypt c.regData.es2 psk2
  let c := c.onReg fun r => { r with psk1, psk2, rHash1, rHash2 }
  let plain ← appendAll [appendWscTlv .rSnonce1 c.regData.es1.bytes 0]
  let msg ← appendAll
    [appendWscTlv .version [c.regData.selfInfo.version] 0,
      appendWscTlv .msgType [0x08] 0,
      appendWscTlv .enrolleeNonce c.regData.enrolleeNonce.bytes 0,
      appendWscTlv .rHash1 rHash1.bytes 0,
      appendWscTlv .rHash2 rHash2.bytes 0,
      encrSettings crypt c.regData iv plain]
  let msg ← appendAuthenticator crypt c.regData (msg ++ v2Attrs c)
  let c ← saveLastTx c msg
  some (msg, c)

/-- A message with a nonce and encrypted settings: M5 to M8 up to what is saved. -/
def buildMessageEncr (msgType : Byte) (nonce : Option Attr) (iv : Buf 16) (plain : List Attr)
    (c : WscCtrl) : Option (List Attr) := do
  let msg ← appendAll
    [appendWscTlv .version [c.regData.selfInfo.version] 0,
      appendWscTlv .msgType [msgType] 0,
      nonce,
      encrSettings crypt c.regData iv plain]
  appendAuthenticator crypt c.regData (msg ++ v2Attrs c)

def buildMessageM5 (iv : Buf 16) (c : WscCtrl) : Option (List Attr × WscCtrl) := do
  let plain ← appendAll [appendWscTlv .eSnonce1 c.regData.es1.bytes 0]
  let msg ← buildMessageEncr crypt 0x09
    (appendWscTlv .registrarNonce c.regData.registrarNonce.bytes 0) iv plain c
  some (msg, ← saveLastTx c msg)

def buildMessageM6 (iv : Buf 16) (c : WscCtrl) : Option (List Attr × WscCtrl) := do
  let plain ← appendAll [appendWscTlv .rSnonce2 c.regData.es2.bytes 0]
  let msg ← buildMessageEncr crypt 0x0A
    (appendWscTlv .enrolleeNonce c.regData.enrolleeNonce.bytes 0) iv plain c
  some (msg, ← saveLastTx c msg)

/-- The authentication type that is offered: a peer of version 1 is not offered the mixed one. -/
def offeredAuthType (version2 : Byte) (cred : WscCredential) : BitVec 16 :=
  if version2 = 0 ∧ cred.authType = 0x0022 then 0x0020 else cred.authType

def offeredEncrType (version2 : Byte) (cred : WscCredential) : BitVec 16 :=
  if version2 = 0 ∧ cred.encrType = 0x000C then 0x0008 else cred.encrType

/-- The enrollee is an access point, not the client interface of one (`MIN_NET_DEVICE_FOR_APCLI`). -/
def isAp (c : WscCtrl) : Bool := c.opMode = .apMode ∧ c.entryIfIdx < 0x20

/-- The settings of an access point in M7. -/
def settingsAttrs (version2 : Byte) (cred : WscCredential) : List (Option Attr) :=
  [appendWscTlv .ssid cred.ssid.bytes cred.ssidLength,
    appendWscTlv .macAddr cred.macAddr.bytes 0,
    appendWscTlv .authType (be16 (offeredAuthType version2 cred)) 0,
    appendWscTlv .encrType (be16 (offeredEncrType version2 cred)) 0,
    appendWscTlv .nwKeyIndex [cred.keyIndex] 0,
    appendWscTlv .nwKey cred.key.bytes cred.keyLength]

/-- `BuildMessageM7`: an access point adds its settings, made from the configuration. -/
def buildMessageM7 (iv : Buf 16) (cfg : WscProfile) (c : WscCtrl) :
    Option (List Attr × WscCtrl) := do
  let c := if isAp c then c.setProfile cfg else c
  let settings :=
    if isAp c then settingsAttrs c.regData.peerInfo.version2 c.wscProfile.first else []
  let plain ← appendAll (appendWscTlv .eSnonce2 c.regData.es2.bytes 0 :: settings)
  let msg ← buildMessageEncr crypt 0x0B
    (appendWscTlv .registrarNonce c.regData.registrarNonce.bytes 0) iv plain c
  some (msg, ← saveLastTx c msg)

/-- An enrollee of version 2 is configured even if it already is (`bForceSetAP`). -/
def forceSetAp (c : WscCtrl) : Bool :=
  c.bForceSetAp && c.bEnableWpsV2 && c.regData.peerInfo.version2 != 0

/-- The profile whose first credential M8 carries. -/
def profileM8 (cfg : WscProfile) (bssid : Buf 6) (c : WscCtrl) : WscProfile :=
  match c.opMode with
  | .apMode => cfg
  | .staMode =>
    let p := if c.wscProfile.profileCnt = 0 ∨ (c.bConfiguredAp ∧ ¬ forceSetAp c) then cfg
      else c.wscProfile
    p.setFirst { p.first with macAddr := bssid }

def credentialAttrs (version2 : Byte) (cred : WscCredential) : List (Option Attr) :=
  [appendWscTlv .nwIndex [0x31] 0,
    appendWscTlv .ssid cred.ssid.bytes cred.ssidLength,
    appendWscTlv .authType (be16 (offeredAuthType version2 cred)) 0,
    appendWscTlv .encrType (be16 (offeredEncrType version2 cred)) 0,
    appendWscTlv .nwKeyIndex [cred.keyIndex] 0,
    appendWscTlv .nwKey cred.key.bytes cred.keyLength,
    appendWscTlv .macAddr cred.macAddr.bytes 0]

def buildMessageM8 (iv : Buf 16) (cfg : WscProfile) (bssid : Buf 6) (c : WscCtrl) :
    Option (List Attr × WscCtrl) := do
  let c := c.setProfile (profileM8 cfg bssid c)
  let cred ← appendAll
    (credentialAttrs c.regData.peerInfo.version2 c.wscProfile.first)
  let plain ← if c.opMode = .apMode ∨ c.bAdhoc then
      appendAll [appendWscTlv .credential (encodeAll cred) (encodeAll cred).length]
    else some cred
  let msg ← buildMessageEncr crypt 0x0C
    (appendWscTlv .enrolleeNonce c.regData.enrolleeNonce.bytes 0) iv plain c
  some (msg, c)

end RalinkSdk.Wps
