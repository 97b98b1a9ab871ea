import Mathlib.Logic.Function.Basic
import RalinkSdk.Lib.Tlv

/-!
# The data of Wi-Fi Protected Setup

The attributes of the messages, what a device keeps of itself and of its peer, and the data of
one run of the registration protocol.  Numbers of two and four bytes that the code copies as
memory are kept as the bytes in memory.  `none` stands for an access outside a buffer.

## Source

`include/wsc.h`, `include/wsc_tlv.h`, `common/wsc_tlv.c`, `common/wsc_v2.c`.
-/

namespace RalinkSdk.Wps

open Lib

abbrev Byte := BitVec 8

/-! ## Attributes -/

/-- The attributes that the messages M1 to M8 and their encrypted settings are made of. -/
inductive WscId where
  | assocState | authType | authTypeFlags | authenticator | configMethods | configError
  | connTypeFlags | credential | encrType | encrTypeFlags | deviceName | devicePwdId | eHash1
  | eHash2 | eSnonce1 | eSnonce2 | encrSettings | enrolleeNonce | keyWrapAuth | macAddr
  | manufacturer | msgType | modelName | modelNumber | nwIndex | nwKey | nwKeyIndex | osVersion
  | publicKey | registrarNonce | rfBand | rHash1 | rHash2 | rSnonce1 | rSnonce2 | serialNum
  | scState | ssid | uuidE | uuidR | vendorExt | version | primDevType
deriving DecidableEq

namespace WscId

/-- All attributes. -/
def all : List WscId :=
  [.assocState, .authType, .authTypeFlags, .authenticator, .configMethods, .configError,
    .connTypeFlags, .credential, .encrType, .encrTypeFlags, .deviceName, .devicePwdId, .eHash1,
    .eHash2, .eSnonce1, .eSnonce2, .encrSettings, .enrolleeNonce, .keyWrapAuth, .macAddr,
    .manufacturer, .msgType, .modelName, .modelNumber, .nwIndex, .nwKey, .nwKeyIndex, .osVersion,
    .publicKey, .registrarNonce, .rfBand, .rHash1, .rHash2, .rSnonce1, .rSnonce2, .serialNum,
    .scState, .ssid, .uuidE, .uuidR, .vendorExt, .version, .primDevType]

/-- The `WSC_ID_...` number of an attribute. -/
def type : WscId → BitVec 16
  | assocState => 0x1002
  | authType => 0x1003
  | authTypeFlags => 0x1004
  | authenticator => 0x1005
  | configMethods => 0x1008
  | configError => 0x1009
  | connTypeFlags => 0x100D
  | credential => 0x100E
  | encrType => 0x100F
  | encrTypeFlags => 0x1010
  | deviceName => 0x1011
  | devicePwdId => 0x1012
  | eHash1 => 0x1014
  | eHash2 => 0x1015
  | eSnonce1 => 0x1016
  | eSnonce2 => 0x1017
  | encrSettings => 0x1018
  | enrolleeNonce => 0x101A
  | keyWrapAuth => 0x101E
  | macAddr => 0x1020
  | manufacturer => 0x1021
  | msgType => 0x1022
  | modelName => 0x1023
  | modelNumber => 0x1024
  | nwIndex => 0x1026
  | nwKey => 0x1027
  | nwKeyIndex => 0x1028
  | osVersion => 0x102D
  | publicKey => 0x1032
  | registrarNonce => 0x1039
  | rfBand => 0x103C
  | rHash1 => 0x103D
  | rHash2 => 0x103E
  | rSnonce1 => 0x103F
  | rSnonce2 => 0x1040
  | serialNum => 0x1042
  | scState => 0x1044
  | ssid => 0x1045
  | uuidE => 0x1047
  | uuidR => 0x1048
  | vendorExt => 0x1049
  | version => 0x104A
  | primDevType => 0x1054

/-- The length that `AppendWSCTLV` takes when it is given none (`wsc_tlv_0b`). -/
def len : WscId → Nat
  | assocState => 2
  | authType => 2
  | authTypeFlags => 2
  | authenticator => 8
  | configMethods => 2
  | configError => 2
  | connTypeFlags => 1
  | credential => 0xff
  | encrType => 2
  | encrTypeFlags => 2
  | deviceName => 0x20
  | devicePwdId => 2
  | eHash1 => 32
  | eHash2 => 32
  | eSnonce1 => 16
  | eSnonce2 => 16
  | encrSettings => 0xff
  | enrolleeNonce => 16
  | keyWrapAuth => 8
  | macAddr => 6
  | manufacturer => 0x40
  | msgType => 1
  | modelName => 0x20
  | modelNumber => 0x20
  | nwIndex => 1
  | nwKey => 0
  | nwKeyIndex => 1
  | osVersion => 4
  | publicKey => 192
  | registrarNonce => 16
  | rfBand => 1
  | rHash1 => 32
  | rHash2 => 32
  | rSnonce1 => 16
  | rSnonce2 => 16
  | serialNum => 0x20
  | scState => 1
  | ssid => 0x20
  | uuidE => 16
  | uuidR => 16
  | vendorExt => 0x400
  | version => 1
  | primDevType => 8

/-- The attribute of a number in a message. -/
def ofType (t : BitVec 16) : Option WscId := all.find? fun id => id.type == t

@[simp] theorem ofType_type (id : WscId) : ofType id.type = some id := by
  cases id <;> rfl

end WscId

/-- `AppendWSCTLV`: the attribute with `varlen` bytes of `ibuf`, or with the length of the table
    if `varlen` is zero. -/
def appendWscTlv (id : WscId) (ibuf : List Byte) (varlen : Nat) : Option Attr := do
  let value ← readBytes ibuf (if varlen ≠ 0 then varlen else id.len)
  some ⟨id.type, value⟩

/-- `strlen`, which runs out of a field without a NUL. -/
def strlen {n : Nat} (field : Buf n) : Option Nat :=
  if 0 ∈ field.bytes then some (field.bytes.takeWhile (· ≠ 0)).length else none

/-- The length of an attribute of a string: `strlen` of its field, which the table replaces if
    it is zero. -/
def appendString {n : Nat} (id : WscId) (field : Buf n) : Option Attr := do
  appendWscTlv id field.bytes (← strlen field)

/-! ## What is kept of a device -/

structure WscDevInfo where
  version : Byte
  version2 : Byte
  uuid : Buf 16
  macAddr : Buf 6
  deviceName : Buf 32
  priDeviceType : Buf 8
  authTypeFlags : Buf 2
  encrTypeFlags : Buf 2
  connTypeFlags : Byte
  configMethods : Buf 2
  scState : Byte
  manufacturer : Buf 64
  modelName : Buf 32
  modelNumber : Buf 32
  serialNumber : Buf 32
  rfBand : Byte
  osVersion : Buf 4
  assocState : Buf 2
  devPwdId : Buf 2
  configError : Buf 2
deriving DecidableEq

/-- `WSC_CREDENTIAL`: the length of the SSID and of the key with their fields. -/
structure WscCredential where
  ssidLength : Nat
  ssid : Buf 32
  authType : BitVec 16
  encrType : BitVec 16
  key : Buf 64
  keyLength : Nat
  macAddr : Buf 6
  keyIndex : Byte
deriving DecidableEq

structure WscProfile where
  profileCnt : Nat
  profile : Fin 8 → WscCredential

def WscProfile.first (p : WscProfile) : WscCredential := p.profile ⟨0, by decide⟩

/-- Replace the first credential. -/
def WscProfile.setFirst (p : WscProfile) (cred : WscCredential) : WscProfile :=
  { p with profile := Function.update p.profile ⟨0, by decide⟩ cred }

@[simp] theorem WscProfile.first_setFirst (p : WscProfile) (cred : WscCredential) :
    (p.setFirst cred).first = cred := by
  simp [first, setFirst]

@[simp] theorem WscProfile.setFirst_setFirst (p : WscProfile) (cred cred' : WscCredential) :
    (p.setFirst cred).setFirst cred' = p.setFirst cred' := by
  simp [setFirst]

@[simp] theorem WscProfile.setFirst_first (p : WscProfile) : p.setFirst p.first = p := by
  simp [first, setFirst]

/-! ## A run of the protocol -/

/-- `WSC_MESSAGE`: a message as it was sent or received. -/
structure WscMessage where
  length : Nat
  data : Buf 2048
deriving DecidableEq

def WscMessage.save (m : WscMessage) (msg : List Byte) : Option WscMessage := do
  some ⟨msg.length, ← m.data.store msg⟩

/-- The bytes that were saved. -/
def WscMessage.bytes (m : WscMessage) : List Byte := m.data.bytes.take m.length

structure WscRegData where
  selfInfo : WscDevInfo
  peerInfo : WscDevInfo
  enrolleeRandom : Buf 192
  pke : Buf 192
  pkr : Buf 192
  secretKey : Buf 192
  apEncrSettings : Buf 1024
  lastTx : WscMessage
  lastRx : WscMessage
  pin : Buf 8
  pinCodeLen : Nat
  authKey : Buf 32
  keyWrapKey : Buf 16
  emsk : Buf 32
  enrolleeNonce : Buf 16
  registrarNonce : Buf 16
  selfNonce : Buf 16
  psk1 : Buf 16
  psk2 : Buf 16
  eHash1 : Buf 32
  eHash2 : Buf 32
  es1 : Buf 16
  es2 : Buf 16
  rHash1 : Buf 32
  rHash2 : Buf 32
  rs1 : Buf 16
  rs2 : Buf 16
deriving DecidableEq

/-- The driver is built for an access point or for a station (`CONFIG_AP_SUPPORT`,
    `CONFIG_STA_SUPPORT`). -/
inductive OpMode where
  | apMode
  | staMode
deriving DecidableEq

inductive WscMode where
  | pin
  | pbc
  | smpbc
deriving DecidableEq

/-- `WscState`, in the order of the source. -/
inductive WscState where
  | off | init | start | fail | configured | linkUp | sendEapolStart | waitEapolStart
  | waitUpnpStart | waitReqId | waitRespId | waitWscStart | waitM1 | sentM1 | sentM2d | waitM2
  | rxM2d | waitPin | waitM3 | waitM4 | waitM5 | waitM6 | waitM7 | waitM8 | waitDone | waitAck
  | waitEapfail | waitDisconn
deriving DecidableEq

/-- `WSC_CTRL`, as far as the messages use it. -/
structure WscCtrl where
  opMode : OpMode
  wscMode : WscMode
  wscConfigMethods : BitVec 16
  wscConfStatus : Byte
  wscState : WscState
  wscPinCode : Nat
  bWscTrigger : Bool
  bWscAutoTigeer : Bool
  wscRejectSamePinFromEnrollee : Bool
  wscUuidE : Buf 16
  entryIfIdx : Nat
  bAdhoc : Bool
  bConfiguredAp : Bool
  bCheckMultiByte : Bool
  wscUseUpnp : Bool
  eapMsgRunning : Bool
  bUpnpMsgTimerRunning : Bool
  bEnableWpsV2 : Bool
  bForceSetAp : Bool
  extraTlv : Option Attr
  wscProfile : WscProfile
  wscM7Profile : WscProfile
  regData : WscRegData

/-- Change the data of the run. -/
def WscCtrl.onReg (c : WscCtrl) (f : WscRegData → WscRegData) : WscCtrl :=
  { c with regData := f c.regData }

/-- Change what is kept of the peer. -/
def WscCtrl.onPeer (c : WscCtrl) (f : WscDevInfo → WscDevInfo) : WscCtrl :=
  { c with regData := { c.regData with peerInfo := f c.regData.peerInfo } }

/-- Change whether the peer is a configured access point. -/
def WscCtrl.setConfiguredAp (c : WscCtrl) (bConfiguredAp : Bool) : WscCtrl :=
  { c with bConfiguredAp }

def WscCtrl.setProfile (c : WscCtrl) (wscProfile : WscProfile) : WscCtrl := { c with wscProfile }

def WscCtrl.setM7Profile (c : WscCtrl) (wscM7Profile : WscProfile) : WscCtrl :=
  { c with wscM7Profile }

end RalinkSdk.Wps
