import RalinkSdk.Wps.Build

/-!
# The messages that Wi-Fi Protected Setup receives

`ProcessMessageM1` to `ProcessMessageM8`.  Each saves the message, walks over its attributes,
each with its own handler, and checks the Authenticator and which of the mandatory attributes
were there.  `FieldCheck` is the set of attributes whose bit is set.

What the code only reports is left out: versions, message types and nonces that differ, and the
Key-Wrap-Authenticator of the settings.

## Source

`common/wsc_tlv.c`, `common/wsc_v2.c`, `common/cmm_info.c`.
-/

namespace RalinkSdk.Wps

open Lib Crypt

variable (crypt : CryptFns)

inductive WscError where
  | noError
  | setupLocked
  | devPwdAuthFail
  | wantingField
  | hashFail
  | hmacFail
deriving DecidableEq

/-- Copy the value of an attribute to a field. -/
def load {n : Nat} (field : Buf n) (pData : List Byte) (wscLen : Nat) : Option (Buf n) := do
  field.store (← readBytes pData wscLen)

/-- Read a field of `n` bytes at a pointer. -/
def readField (n : Nat) (pData : List Byte) : Option (Buf n) :=
  if h : n ≤ pData.length then some ⟨pData.take n, by simp [h]⟩ else none

/-- A number of two bytes at a pointer, the high byte first. -/
def readBe16 : List Byte → Option (BitVec 16)
  | hi :: lo :: _ => some (hi ++ lo)
  | _ => none

/-! ## What has been seen of a message -/

/-- Invert the bit of an attribute. -/
def toggle (fieldCheck : WscId → Bool) (id : WscId) : WscId → Bool :=
  Function.update fieldCheck id (! fieldCheck id)

/-- The state of a walk over a message. -/
structure Parse where
  ctrl : WscCtrl
  hmac : Buf 8
  fieldCheck : WscId → Bool

namespace Parse

/-- Change the data of the run. -/
def onReg (s : Parse) (f : WscRegData → WscRegData) : Parse := { s with ctrl := s.ctrl.onReg f }

/-- Change what is kept of the peer. -/
def onPeer (s : Parse) (f : WscDevInfo → WscDevInfo) : Parse := { s with ctrl := s.ctrl.onPeer f }

/-- An attribute has been seen. -/
def seen (s : Parse) (id : WscId) : Parse := { s with fieldCheck := toggle s.fieldCheck id }

/-- A bit is still set. -/
def wanting (s : Parse) : Bool := WscId.all.any s.fieldCheck

end Parse

/-- Save the message and start the walk, with the bits of the mandatory attributes set. -/
def startParse (mandatory : List WscId) (hmac : Buf 8) (msg : List Byte) (c : WscCtrl) :
    Option Parse := do
  let lastRx ← c.regData.lastRx.save msg
  some ⟨c.onReg fun r => { r with lastRx }, hmac, fun id => mandatory.contains id⟩

/-- The initial value of `Hmac`. -/
def noHmac : Buf 8 := Buf.fill 8 0xff

/-- The handler of an attribute; other numbers are passed over. -/
def dispatch {σ : Type} (handle : WscId → Nat → List Byte → σ → Option σ) (type : BitVec 16)
    (wscLen : Nat) (pData : List Byte) (s : σ) : Option σ :=
  match WscId.ofType type with
  | some id => handle id wscLen pData s
  | none => some s

/-- The walk over the message that was saved. -/
def parseMessage (handle : WscId → Nat → List Byte → Parse → Option Parse) (s : Parse) :
    Option Parse :=
  scan (dispatch handle) s.ctrl.regData.lastRx.length s.ctrl.regData.lastRx.data.bytes s

/-- Save a message and walk over it. -/
def receive (mandatory : List WscId) (handle : WscId → Nat → List Byte → Parse → Option Parse)
    (msg : List Byte) (c : WscCtrl) : Option Parse := do
  parseMessage handle (← startParse mandatory noHmac msg c)

/-- The Authenticator is the HMAC over the last message sent and the message received without
    its last 12 bytes. -/
def checkHmac (r : WscRegData) (hmac : Buf 8) : Option Bool :=
  if 12 ≤ r.lastRx.length ∧ r.lastTx.length + (r.lastRx.length - 12) ≤ hmacDataSize then
    let data := r.lastTx.bytes ++ r.lastRx.bytes.take (r.lastRx.length - 12)
    some ((crypt.rtHmacSha256 r.authKey.bytes data).first 8 (by decide) = hmac)
  else none

/-- The end of the functions: a wanting field outweighs a wrong Authenticator. -/
def checkMessage (s : Parse) : Option (WscError × WscCtrl) := do
  let ok ← checkHmac crypt s.ctrl.regData s.hmac
  if s.wanting then some (.wantingField, s.ctrl)
  else if ok then some (.noError, s.ctrl)
  else some (.hmacFail, s.ctrl)

/-- The attribute whose value goes to `Hmac`. -/
def parseAuthenticator (wscLen : Nat) (pData : List Byte) (s : Parse) : Option Parse := do
  some ({ s with hmac := ← load s.hmac pData wscLen }.seen .authenticator)

/-! ## M1 and M2 -/

/-- The loop of `WscParseV2SubItem` for `Version2`, `length` bytes behind its start: the value of
    the item if there is one. -/
def parseV2SubItem (dataLen : Nat) (length : Nat) : List Byte → Option (Option (List Byte))
  | eid :: len :: octets =>
    if length + 2 + len.toNat + 3 ≤ dataLen then
      if eid = 0x00 then (readBytes octets len.toNat).map some
      else parseV2SubItem dataLen (length + 2 + len.toNat) (octets.drop len.toNat)
    else some none
  | _ => none
termination_by p => p.length
decreasing_by simp; omega

def wscParseV2SubItem (dataLen : Nat) (pData : List Byte) (version2 : Byte) : Option Byte := do
  match ← parseV2SubItem dataLen 0 (pData.drop 3) with
  | none | some [] => some version2
  | some [b] => some b
  | some _ => none

/-- The attributes that M1 and M2 handle alike. -/
def parsePeerInfo (id : WscId) (wscLen : Nat) (pData : List Byte) (s : Parse) : Option Parse :=
  let peer := s.ctrl.regData.peerInfo
  match id with
  | .version | .msgType => some (s.seen id)
  | .authTypeFlags => do
    let authTypeFlags ← readField 2 pData
    some ((s.onPeer fun d => { d with authTypeFlags }).seen id)
  | .encrTypeFlags => do
    let encrTypeFlags ← readField 2 pData
    some ((s.onPeer fun d => { d with encrTypeFlags }).seen id)
  | .connTypeFlags => do
    let connTypeFlags ← pData.head?
    some ((s.onPeer fun d => { d with connTypeFlags }).seen id)
  | .configMethods => do
    let configMethods ← readField 2 pData
    some ((s.onPeer fun d => { d with configMethods }).seen id)
  | .manufacturer => do
    let manufacturer ← load peer.manufacturer pData wscLen
    some ((s.onPeer fun d => { d with manufacturer }).seen id)
  | .modelName => do
    let modelName ← load peer.modelName pData wscLen
    some ((s.onPeer fun d => { d with modelName }).seen id)
  | .modelNumber => do
    let modelNumber ← load peer.modelNumber pData wscLen
    some ((s.onPeer fun d => { d with modelNumber }).seen id)
  | .serialNum => do
    let serialNumber ← load peer.serialNumber pData wscLen
    some ((s.onPeer fun d => { d with serialNumber }).seen id)
  | .primDevType => do
    let priDeviceType ← load peer.priDeviceType pData wscLen
    some ((s.onPeer fun d => { d with priDeviceType }).seen id)
  | .deviceName => do
    let deviceName ← load peer.deviceName pData wscLen
    some ((s.onPeer fun d => { d with deviceName }).seen id)
  | .rfBand => do
    let rfBand ← pData.head?
    some ((s.onPeer fun d => { d with rfBand }).seen id)
  | .assocState => do
    let assocState ← readField 2 pData
    some ((s.onPeer fun d => { d with assocState }).seen id)
  | .configError => do
    let configError ← readField 2 pData
    some ((s.onPeer fun d => { d with configError }).seen id)
  | .osVersion => do
    let osVersion ← readField 4 pData
    some ((s.onPeer fun d => { d with osVersion }).seen id)
  | .vendorExt =>
    if s.ctrl.bEnableWpsV2 then do
      let version2 ← wscParseV2SubItem wscLen pData peer.version2
      some (s.onPeer fun d => { d with version2 })
    else some s
  | _ => some s

/-- The attributes without which M1 is refused. -/
def mandatoryM1 : List WscId :=
  [.version, .msgType, .uuidE, .macAddr, .enrolleeNonce, .publicKey, .authTypeFlags,
    .encrTypeFlags, .connTypeFlags, .configMethods, .scState, .manufacturer, .modelName,
    .modelNumber, .serialNum, .primDevType, .deviceName, .rfBand, .assocState, .configError,
    .devicePwdId, .osVersion]

/-- The own device password id after that of M1, which is compared with the bytes swapped. -/
def devPwdIdM1 (received own : Buf 2) : Buf 2 :=
  if received.bytes = [0x00, 0x00] then ⟨[0x00, 0x00], rfl⟩
  else if received.bytes = [0x04, 0x00] then ⟨[0x00, 0x04], rfl⟩
  else own

def parseM1 (id : WscId) (wscLen : Nat) (pData : List Byte) (s : Parse) : Option Parse :=
  let reg := s.ctrl.regData
  match id with
  | .uuidE => do
    let uuid ← load reg.peerInfo.uuid pData wscLen
    some ((s.onPeer fun d => { d with uuid }).seen id)
  | .macAddr => do
    let macAddr ← load reg.peerInfo.macAddr pData wscLen
    some ((s.onPeer fun d => { d with macAddr }).seen id)
  | .enrolleeNonce => do
    let enrolleeNonce ← load reg.enrolleeNonce pData wscLen
    some ((s.onReg fun r => { r with enrolleeNonce }).seen id)
  | .publicKey => do
    let pke ← load reg.pke pData wscLen
    some ((s.onReg fun r => { r with pke }).seen id)
  | .scState => do
    -- two bytes are read, and the first is kept
    let read ← readBytes pData 2
    let scState ← read.head?
    let s := s.onPeer fun d => { d with scState }
    let s := if s.ctrl.opMode = .staMode then
        { s with ctrl := s.ctrl.setConfiguredAp (scState = 0x02) }
      else s
    some (s.seen id)
  | .devicePwdId => do
    let received ← readField 2 pData
    let devPwdId := devPwdIdM1 received reg.selfInfo.devPwdId
    some ((s.onReg fun r => { r with selfInfo := { r.selfInfo with devPwdId } }).seen id)
  | _ => parsePeerInfo id wscLen pData s

def processMessageM1 (random : Buf 192) (msg : List Byte) (c : WscCtrl) :
    Option (WscError × WscCtrl) := do
  let c := c.onPeer fun d => { d with version2 := 0 }
  let c := c.onReg fun r =>
    { r with enrolleeRandom := random, pkr := crypt.rtDhPublicKeyGenerate random }
  let s ← receive mandatoryM1 parseM1 msg c
  if s.wanting then some (.wantingField, s.ctrl) else some (.noError, s.ctrl)

/-- The attributes without which M2 is refused. -/
def mandatoryM2 : List WscId :=
  [.version, .msgType, .enrolleeNonce, .registrarNonce, .uuidR, .publicKey, .authTypeFlags,
    .encrTypeFlags, .connTypeFlags, .configMethods, .manufacturer, .modelName, .modelNumber,
    .serialNum, .primDevType, .deviceName, .rfBand, .assocState, .configError, .devicePwdId,
    .osVersion, .authenticator]

def parseM2 (id : WscId) (wscLen : Nat) (pData : List Byte) (s : Parse) : Option Parse :=
  let reg := s.ctrl.regData
  match id with
  | .enrolleeNonce | .devicePwdId => some (s.seen id)
  | .registrarNonce => do
    let registrarNonce ← load reg.registrarNonce pData wscLen
    some ((s.onReg fun r => { r with registrarNonce }).seen id)
  | .uuidR => do
    let uuid ← load reg.peerInfo.uuid pData wscLen
    some ((s.onPeer fun d => { d with uuid }).seen id)
  | .publicKey => do
    let pkr ← load reg.pkr pData wscLen
    some ((s.onReg fun r => { r with pkr }).seen id)
  | .authenticator => parseAuthenticator wscLen pData s
  | _ => parsePeerInfo id wscLen pData s

def processMessageM2 (msg : List Byte) (c : WscCtrl) : Option (WscError × WscCtrl) := do
  let c := c.onPeer fun d => { d with version2 := 0 }
  let s ← receive mandatoryM2 parseM2 msg c
  let s := s.onReg fun r =>
    r.deriveKeys crypt (crypt.rtDhSecretKeyGenerate r.pkr r.enrolleeRandom) r.selfNonce
      r.selfInfo.macAddr r.registrarNonce
  checkMessage crypt s

/-! ## Encrypted settings -/

/-- The length of an SSID: it ends at a NUL. -/
def ssidLen (pData : List Byte) (wscLen : Nat) : Option Nat :=
  let value := pData.take wscLen
  if value.length = wscLen ∨ 0 ∈ value then some (value.takeWhile (· ≠ 0)).length else none

/-- Change the first credential of the settings in M7. -/
def WscCtrl.onM7Profile (c : WscCtrl) (f : WscCredential → WscCredential) : WscCtrl :=
  c.setM7Profile (c.wscM7Profile.setFirst (f c.wscM7Profile.first))

def parseStaSetting (id : WscId) (wscLen : Nat) (pData : List Byte) (c : WscCtrl) :
    Option WscCtrl :=
  let cred := c.wscM7Profile.first
  match id with
  | .ssid => do
    let ssidLength ← ssidLen pData wscLen
    let ssid ← load cred.ssid pData ssidLength
    let c := c.onM7Profile fun p => { p with ssidLength, ssid }
    some (c.setM7Profile { c.wscM7Profile with profileCnt := 1 })
  | .macAddr => do
    let macAddr ← readField 6 pData
    some (c.onM7Profile fun p => { p with macAddr })
  | .authType => do
    let authType ← readBe16 pData
    some (c.onM7Profile fun p => { p with authType })
  | .encrType => do
    let encrType ← readBe16 pData
    some (c.onM7Profile fun p => { p with encrType })
  | .nwKeyIndex => do
    let keyIndex ← pData.head?
    some (c.onM7Profile fun p => { p with keyIndex })
  | .nwKey =>
    if wscLen = 0 then some c
    else do
      let key ← load cred.key pData wscLen
      some (c.onM7Profile fun p => { p with keyLength := wscLen, key })
  | _ => some c

/-- An attribute of the settings in M4 to M7. -/
def parseSetting (id : WscId) (wscLen : Nat) (pData : List Byte) (c : WscCtrl) : Option WscCtrl :=
  match id with
  | .eSnonce1 => do
    let es1 ← load c.regData.es1 pData wscLen
    some (c.onReg fun r => { r with es1 })
  | .eSnonce2 => do
    let es2 ← load c.regData.es2 pData wscLen
    some (c.onReg fun r => { r with es2 })
  | .rSnonce1 => do
    let rs1 ← load c.regData.rs1 pData wscLen
    some (c.onReg fun r => { r with rs1 })
  | .rSnonce2 => do
    let rs2 ← load c.regData.rs2 pData wscLen
    some (c.onReg fun r => { r with rs2 })
  | .keyWrapAuth => do
    let _ ← load (Buf.fill 8 0) pData wscLen
    some c
  | _ => if c.opMode = .staMode then parseStaSetting id wscLen pData c else some c

def wscParseEncrSettings (plainLength : Nat) (c : WscCtrl) : Option WscCtrl :=
  scan (dispatch parseSetting) plainLength c.regData.apEncrSettings.bytes c

/-- The initialization vector and the encrypted data. -/
def splitIv (ivData : List Byte) : Option (Buf 16 × List Byte) :=
  if h : 16 ≤ ivData.length then some (firstBlock ivData h, ivData.drop 16) else none

/-- Decrypt the settings to `ApEncrSettings`, with the length of the text. -/
def decryptSettings (wscLen : Nat) (pData : List Byte) (c : WscCtrl) : Option (WscCtrl × Int) := do
  let (iv, encrData) ← splitIv (← readBytes pData wscLen)
  let (apEncrSettings, encrLen) ←
    aesCbcDecrypt (crypt.rtAesDecrypt c.regData.keyWrapKey) encrData iv c.regData.apEncrSettings
  some (c.onReg fun r => { r with apEncrSettings }, encrLen)

/-- The encrypted settings of M4 to M6. -/
def parseEncrSettings (wscLen : Nat) (pData : List Byte) (s : Parse) : Option Parse :=
  if wscLen ≤ 16 ∨ 512 < wscLen then some s
  else do
    let (c, encrLen) ← decryptSettings crypt wscLen pData s.ctrl
    let c ← wscParseEncrSettings encrLen.toNat c
    some ({ s with ctrl := c }.seen .encrSettings)

/-! ## M3 to M6 -/

def parseM3 (id : WscId) (wscLen : Nat) (pData : List Byte) (s : Parse) : Option Parse :=
  match id with
  | .version | .msgType | .registrarNonce => some (s.seen id)
  | .eHash1 => do
    let eHash1 ← load s.ctrl.regData.eHash1 pData wscLen
    some ((s.onReg fun r => { r with eHash1 }).seen id)
  | .eHash2 => do
    let eHash2 ← load s.ctrl.regData.eHash2 pData wscLen
    some ((s.onReg fun r => { r with eHash2 }).seen id)
  | .authenticator => parseAuthenticator wscLen pData s
  | _ => some s

/-- The attributes without which M3 is refused. -/
def mandatoryM3 : List WscId :=
  [.version, .msgType, .registrarNonce, .eHash1, .eHash2, .authenticator]

def processMessageM3 (msg : List Byte) (c : WscCtrl) : Option (WscError × WscCtrl) := do
  let s ← receive mandatoryM3 parseM3 msg c
  checkMessage crypt s

def parseM4 (id : WscId) (wscLen : Nat) (pData : List Byte) (s : Parse) : Option Parse :=
  match id with
  | .version | .msgType | .enrolleeNonce => some (s.seen id)
  | .rHash1 => do
    let rHash1 ← load s.ctrl.regData.rHash1 pData wscLen
    some ((s.onReg fun r => { r with rHash1 }).seen id)
  | .rHash2 => do
    let rHash2 ← load s.ctrl.regData.rHash2 pData wscLen
    some ((s.onReg fun r => { r with rHash2 }).seen id)
  | .encrSettings => parseEncrSettings crypt wscLen pData s
  | .authenticator => parseAuthenticator wscLen pData s
  | _ => some s

/-- The attributes without which M4 is refused. -/
def mandatoryM4 : List WscId :=
  [.version, .msgType, .enrolleeNonce, .rHash1, .rHash2, .encrSettings, .authenticator]

/-- `ProcessMessageM4`: the registrar has proved the first half of the PIN. -/
def processMessageM4 (msg : List Byte) (c : WscCtrl) : Option (WscError × WscCtrl) := do
  let s ← receive mandatoryM4 (parseM4 crypt) msg c
  let reg := s.ctrl.regData
  if reg.rHash1 ≠ reg.hashOf crypt reg.rs1 reg.psk1 then some (.devPwdAuthFail, s.ctrl)
  else checkMessage crypt s

def parseM5 (id : WscId) (wscLen : Nat) (pData : List Byte) (s : Parse) : Option Parse :=
  match id with
  | .version | .msgType | .registrarNonce => some (s.seen id)
  | .encrSettings => parseEncrSettings crypt wscLen pData s
  | .authenticator => parseAuthenticator wscLen pData s
  | _ => some s

/-- The attributes without which M5 is refused. -/
def mandatoryM5 : List WscId :=
  [.version, .msgType, .registrarNonce, .encrSettings, .authenticator]

/-- `ProcessMessageM5`: the enrollee has proved the first half of the PIN. -/
def processMessageM5 (msg : List Byte) (c : WscCtrl) : Option (WscError × WscCtrl) := do
  let s ← receive mandatoryM5 (parseM5 crypt) msg c
  let result ← checkMessage crypt s
  let reg := s.ctrl.regData
  if reg.eHash1 ≠ reg.hashOf crypt reg.es1 reg.psk1 then
    let configError : Buf 2 := ⟨[254, 0], rfl⟩
    some (.hashFail,
      s.ctrl.onReg fun r => { r with selfInfo := { r.selfInfo with configError } })
  else some result

def parseM6 (id : WscId) (wscLen : Nat) (pData : List Byte) (s : Parse) : Option Parse :=
  match id with
  | .version | .msgType | .enrolleeNonce => some (s.seen id)
  | .encrSettings => parseEncrSettings crypt wscLen pData s
  | .authenticator => parseAuthenticator wscLen pData s
  | _ => some s

/-- The attributes without which M6 is refused. -/
def mandatoryM6 : List WscId :=
  [.version, .msgType, .enrolleeNonce, .encrSettings, .authenticator]

/-- `ProcessMessageM6`: the registrar has proved the second half of the PIN. -/
def processMessageM6 (msg : List Byte) (c : WscCtrl) : Option (WscError × WscCtrl) := do
  let s ← receive mandatoryM6 (parseM6 crypt) msg c
  let reg := s.ctrl.regData
  if reg.rHash2 ≠ reg.hashOf crypt reg.rs2 reg.psk2 then some (.devPwdAuthFail, s.ctrl)
  else checkMessage crypt s

/-! ## M7 -/

def zeroCredential : WscCredential where
  ssidLength := 0
  ssid := Buf.fill 32 0
  authType := 0
  encrType := 0
  key := Buf.fill 64 0
  keyLength := 0
  macAddr := Buf.fill 6 0
  keyIndex := 0

def zeroProfile : WscProfile := ⟨0, fun _ => zeroCredential⟩

def parseM7 (id : WscId) (wscLen : Nat) (pData : List Byte) (s : Parse) : Option Parse :=
  match id with
  | .encrSettings =>
    if wscLen ≤ 16 ∨ 1024 < wscLen then some s
    else do
      let (c, encrLen) ← decryptSettings crypt wscLen pData s.ctrl
      let c := if c.opMode = .staMode then c.setM7Profile zeroProfile else c
      let c ← wscParseEncrSettings encrLen.toNat c
      some { s with ctrl := c }
  | .authenticator => do some { s with hmac := ← load s.hmac pData wscLen }
  | _ => some s

/-- `ProcessMessageM7`: no attribute is mandatory, and only the Authenticator is checked. -/
def processMessageM7 (msg : List Byte) (c : WscCtrl) : Option (WscError × WscCtrl) := do
  let s ← receive [] (parseM7 crypt) msg c
  checkMessage crypt s

/-! ## M8 -/

/-- The handler of an attribute that may end the walk. -/
def dispatchStop {σ : Type}
    (handle : WscId → Nat → List Byte → σ → Option (Verdict σ σ)) (type : BitVec 16)
    (wscLen : Nat) (pData : List Byte) (s : σ) : Option (Verdict σ σ) :=
  match WscId.ofType type with
  | some id => handle id wscLen pData s
  | none => some (.next wscLen s)

/-- `RTMPCheckStrPrintAble`, whose length is one byte. -/
def rtmpCheckStrPrintAble (str : List Byte) (strLen : Nat) : Bool :=
  (str.take (strLen % 256)).all fun ch => 0x20#8 ≤ ch && ch ≤ 0x7E#8

/-- The state of `WscProcessCredential`. -/
structure CredentialParse where
  profile : WscProfile
  cnt : Nat
  currentIdx : Nat

def CredentialParse.onCurrent (s : CredentialParse)
    (f : WscCredential → Option WscCredential) : Option CredentialParse :=
  if h : s.currentIdx < 8 then do
    let cred ← f (s.profile.profile ⟨s.currentIdx, h⟩)
    let profile := Function.update s.profile.profile ⟨s.currentIdx, h⟩ cred
    some { s with profile := { s.profile with profile } }
  else none

/-- An attribute of the settings in M8.  The walk goes on inside a credential, and ends at a
    string that is not printable. -/
def parseCredential (bCheckMultiByte : Bool) (id : WscId) (wscLen : Nat) (pData : List Byte)
    (s : CredentialParse) : Option (Verdict CredentialParse CredentialParse) :=
  match id with
  | .nwIndex => some (.next wscLen { s with currentIdx := s.cnt, cnt := s.cnt + 1 })
  | .ssid => do
    let ssidLength ← ssidLen pData wscLen
    let s ← s.onCurrent fun p => some { p with ssidLength }
    if rtmpCheckStrPrintAble pData ssidLength || ! bCheckMultiByte then
      let s ← s.onCurrent fun p => do some { p with ssid := ← load p.ssid pData ssidLength }
      some (.next wscLen s)
    else some (.stop s)
  | .authType => do
    let authType ← readBe16 pData
    some (.next wscLen (← s.onCurrent fun p => some { p with authType }))
  | .encrType => do
    let encrType ← readBe16 pData
    some (.next wscLen (← s.onCurrent fun p => some { p with encrType }))
  | .nwKeyIndex => do
    let keyIndex ← pData.head?
    some (.next wscLen (← s.onCurrent fun p => some { p with keyIndex }))
  | .nwKey =>
    if wscLen = 0 then some (.next wscLen s)
    else if rtmpCheckStrPrintAble pData wscLen || ! bCheckMultiByte then do
      let s ← s.onCurrent fun p => do
        some { p with keyLength := wscLen, key := ← load p.key pData wscLen }
      some (.next wscLen s)
    else some (.stop s)
  | .macAddr => do
    let macAddr ← readField 6 pData
    some (.next wscLen (← s.onCurrent fun p => some { p with macAddr }))
  | .credential => some (.next 0 s)
  | _ => some (.next wscLen s)

/-- One of the first `cnt` credentials uses WEP. -/
def hasWep (p : WscProfile) : Bool :=
  (List.finRange 8).any fun i => decide (i.val < p.profileCnt) && (p.profile i).encrType == 0x0002

/-- `WscProcessCredential`: `FALSE` for a string that is not printable, or for WEP in version 2. -/
def wscProcessCredential (plainLength : Nat) (c : WscCtrl) : Option (Bool × WscCtrl) := do
  let walked ← walk (dispatchStop (parseCredential c.bCheckMultiByte)) plainLength
    c.regData.apEncrSettings.bytes ⟨zeroProfile, 0, 0⟩
  match walked with
  | .inr s => some (false, c.setProfile s.profile)
  | .inl s =>
    let profile := { s.profile with profileCnt := s.cnt }
    if ¬ c.bEnableWpsV2 then some (true, c.setProfile profile)
    else if 8 < s.cnt then none
    else if hasWep profile then some (false, c.setProfile zeroProfile)
    else some (true, c.setProfile profile)

def parseM8 (id : WscId) (wscLen : Nat) (pData : List Byte) (s : Parse) :
    Option (Verdict Parse Parse) :=
  match id with
  | .encrSettings =>
    if wscLen ≤ 16 ∨ 1024 < wscLen then some (.next wscLen s)
    else do
      let (c, encrLen) ← decryptSettings crypt wscLen pData s.ctrl
      let (ok, c) ← wscProcessCredential encrLen.toNat c
      if ok then some (.next wscLen { s with ctrl := c }) else some (.stop { s with ctrl := c })
  | .authenticator => do
    some (.next wscLen { s with hmac := ← load s.hmac pData wscLen })
  | _ => some (.next wscLen s)

/-- `ProcessMessageM8`: the settings are kept, and only the Authenticator is checked.  `Hmac` is
    not initialized. -/
def processMessageM8 (hmac : Buf 8) (msg : List Byte) (c : WscCtrl) :
    Option (WscError × WscCtrl) := do
  let s ← startParse [] hmac msg c
  let walked ← walk (dispatchStop (parseM8 crypt)) s.ctrl.regData.lastRx.length
    s.ctrl.regData.lastRx.data.bytes s
  match walked with
  | .inr s => some (.setupLocked, s.ctrl)
  | .inl s => checkMessage crypt s

end RalinkSdk.Wps
