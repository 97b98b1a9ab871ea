import RalinkSdk.Wps.Process

/-!
# The registrar of Wi-Fi Protected Setup

`WscEapRegistrarAction`: the state machine that takes the messages M1, M3, M5, M7 and WSC_DONE of an
enrollee and answers them.  What a call finds in the adapter, its random bytes and its
uninitialized memory are arguments of the call.

## Source

`common/wsc.c`, `common/wsc_tlv.c`.
-/

namespace RalinkSdk.Wps

open Lib

variable (crypt : CryptFns)

/-- The messages that the registrar takes. -/
inductive WscMsg where
  | m1
  | m3
  | m5
  | m7
  | wscDone
  | other
deriving DecidableEq

def WscState.num (s : WscState) : Nat := s.ctorIdx

def WscError.code : WscError → Byte
  | .noError => 0
  | .setupLocked => 15
  | .devPwdAuthFail => 18
  | .wantingField => 253
  | .hashFail => 254
  | .hmacFail => 255

def WscCtrl.setState (c : WscCtrl) (wscState : WscState) : WscCtrl := { c with wscState }

/-- Change the configuration error of the own device. -/
def WscCtrl.setConfigError (c : WscCtrl) (configError : Buf 2) : WscCtrl :=
  c.onReg fun r => { r with selfInfo := { r.selfInfo with configError } }

structure Call where
  msgType : WscMsg
  msg : List Byte
  /-- The message comes over UPnP. -/
  bUpnpMsg : Bool
  /-- `INFRA_ON` -/
  infraOn : Bool
  /-- `BssType` is `BSS_INFRA`. -/
  bssInfra : Bool
  selfNonce : Buf 16
  random : Buf 192
  iv : Buf 16
  cfg : WscProfile
  bssid : Buf 6

/-- What the registrar sends. -/
inductive Answer where
  | nothing
  | m2d (msg : List Attr)
  | m2 (msg : List Attr)
  | m4 (msg : List Attr)
  | m6 (msg : List Attr)
  | m8 (msg : List Attr)
  | ack (msg : List Attr)
  | nack (msg : List Attr)
  | eapFail

/-- The registrar: its control block, and whether UPnP is in progress. -/
structure Registrar where
  ctrl : WscCtrl
  bUpnpInProgress : Bool

/-- Change the control block. -/
def Registrar.onCtrl (s : Registrar) (f : WscCtrl → WscCtrl) : Registrar :=
  { s with ctrl := f s.ctrl }

def Registrar.endUpnp (s : Registrar) : Registrar :=
  { s with
    ctrl := { s.ctrl with bUpnpMsgTimerRunning := false }
    bUpnpInProgress := false }

/-- The nonces of a session in ACK and NACK. -/
def nonceAttrs (msgType : Byte) (c : WscCtrl) : List (Option Attr) :=
  [appendWscTlv .version [c.regData.selfInfo.version] 0,
    appendWscTlv .msgType [msgType] 0,
    appendWscTlv .enrolleeNonce c.regData.enrolleeNonce.bytes 0,
    appendWscTlv .registrarNonce c.regData.registrarNonce.bytes 0]

def buildMessageACK (c : WscCtrl) : Option (List Attr) := do
  some ((← appendAll (nonceAttrs 0x0D c)) ++ v2Attrs c)

/-- `BuildMessageNACK`: the error is sent with its bytes swapped. -/
def buildMessageNACK (c : WscCtrl) : Option (List Attr) := do
  let configError := c.regData.selfInfo.configError.bytes.reverse
  let msg ← appendAll (nonceAttrs 0x0E c ++ [appendWscTlv .configError configError 0])
  some (msg ++ v2Attrs c)

/-! ## The messages -/

/-- The registrar has no PIN and no button to go on with, and answers M1 with M2D. -/
def sendsM2D (c : WscCtrl) : Bool :=
  ! (c.bWscTrigger && ! c.bWscAutoTigeer &&
    (c.wscMode = .pbc || (c.wscMode = .pin && c.wscPinCode != 0)))

def onM1 (x : Call) (c : WscCtrl) : Option (WscError × Answer × WscCtrl) := do
  let (rv, c) ← processMessageM1 crypt x.random x.msg c
  if rv ≠ .noError then some (rv, .nothing, c)
  else if sendsM2D c then
    let msg ← buildMessageM2D c
    some (.noError, .m2d msg, c.setState .sentM2d)
  else
    let (msg, c) ← buildMessageM2 crypt x.selfNonce c
    let c := c.setState .waitM3
    let c := if c.opMode = .staMode ∧ x.infraOn ∧ ¬ x.bUpnpMsg then
        { c with wscConfStatus := if c.bConfiguredAp then 0x01 else 0x02 }
      else c
    some (.noError, .m2 msg, c)

def onM3 (x : Call) (c : WscCtrl) : Option (WscError × Answer × WscCtrl) := do
  let (rv, c) ← processMessageM3 crypt x.msg c
  if rv ≠ .noError then some (rv, .nothing, c)
  else
    let (msg, c) ← buildMessageM4 crypt x.iv c
    some (.noError, .m4 msg, c.setState .waitM5)

def onM5 (x : Call) (c : WscCtrl) : Option (WscError × Answer × WscCtrl) := do
  let (rv, c) ← processMessageM5 crypt x.msg c
  if rv ≠ .noError then some (rv, .nothing, c)
  else
    let (msg, c) ← buildMessageM6 crypt x.iv c
    some (.noError, .m6 msg, c.setState .waitM7)

/-- M7 in `WSC_STATE_WAIT_M7`: a station does not configure an access point that is configured. -/
def onM7 (x : Call) (c : WscCtrl) : Option (WscError × Answer × WscCtrl) := do
  let (rv, c) ← processMessageM7 crypt x.msg c
  if rv ≠ .noError then some (rv, .nothing, c)
  else if c.opMode = .apMode ∨ ¬ c.bConfiguredAp ∨ forceSetAp c then
    let (msg, c) ← buildMessageM8 crypt x.iv x.cfg x.bssid c
    some (.noError, .m8 msg, c.setState .waitDone)
  else
    let msg ← buildMessageNACK c
    some (.noError, .nack msg, { c.setState .configured with eapMsgRunning := false })

/-- WSC_DONE in `WSC_STATE_WAIT_DONE`. -/
def onDone (c : WscCtrl) : Option (WscError × Answer × WscCtrl) := do
  let answer ← if c.opMode = .apMode ∨ c.bAdhoc then some .eapFail
    else do some (.ack (← buildMessageACK c))
  some (.noError, answer, { c.setState .configured with eapMsgRunning := false })

/-- Only the state says which message is taken; the others are passed over. -/
def registrarSwitch (x : Call) (c : WscCtrl) : Option (WscError × Answer × WscCtrl) :=
  match x.msgType, c.wscState with
  | .m1, .waitM1 => onM1 crypt x c
  | .m3, .waitM3 => onM3 crypt x c
  | .m5, .waitM5 => onM5 crypt x c
  | .m7, .waitM7 => onM7 crypt x c
  | .wscDone, .waitDone => onDone c
  | _, _ => some (.noError, .nothing, c)

/-! ## Before and after a message -/

/-- M1 over UPnP starts a session of its own. -/
def startUpnp (x : Call) (s : Registrar) : Registrar :=
  if x.bUpnpMsg ∧ x.msgType = .m1 ∧ s.ctrl.entryIfIdx = 0xFF ∧
      s.ctrl.wscState.num < WscState.waitM1.num ∧ ¬ s.bUpnpInProgress then
    { s with
      ctrl := { s.ctrl.setState .waitM1 with bUpnpMsgTimerRunning := true }
      bUpnpInProgress := true }
  else s

/-- After M2D over UPnP the state machine is reset. -/
def resetUpnp (x : Call) (s : Registrar) : Registrar :=
  if x.bUpnpMsg ∧ s.ctrl.wscState = .sentM2d then
    { s with ctrl := s.ctrl.setState .waitUpnpStart, bUpnpInProgress := false }
  else s

/-- The configuration error after a failure. -/
def WscCtrl.reportError (c : WscCtrl) (rv : WscError) : WscCtrl :=
  match rv with
  | .hashFail | .hmacFail => c.setConfigError ⟨[2, 0], rfl⟩
  | .wantingField => c
  | _ => c.setConfigError ⟨[rv.code, 0], rfl⟩

/-- A failure: the session ends, and the PIN is not used again if M6 has been sent. -/
def registrarFail (x : Call) (rv : WscError) (s : Registrar) : Option (Answer × Registrar) := do
  let s := s.onCtrl fun c => c.reportError rv
  let s := if x.bUpnpMsg then s.endUpnp else s
  let answer ← if x.bUpnpMsg then some .nothing else do some (.nack (← buildMessageNACK s.ctrl))
  let s := if WscState.waitM7.num ≤ s.ctrl.wscState.num then
      s.onCtrl fun c => { c with wscRejectSamePinFromEnrollee := true, wscPinCode := 0 }
    else s
  some (answer, s.onCtrl fun c => c.setState .off)

/-- A station that has configured itself takes the profile of M7. -/
def applyProfile (x : Call) (c : WscCtrl) : WscCtrl :=
  if x.infraOn ∨ (c.wscConfStatus = 0x01 ∧ (c.opMode = .apMode ∨ c.bAdhoc)) then
    let c := { c with wscConfStatus := 0x02 }
    if c.opMode = .staMode ∧ c.bConfiguredAp ∧ ¬ forceSetAp c then c.setProfile c.wscM7Profile else c
  else c

/-- The end of a session that has succeeded. -/
def registrarDone (x : Call) (s : Registrar) : Registrar :=
  if s.ctrl.wscState = .configured then
    let s := s.onCtrl fun c => { c with bWscTrigger := false }
    let s := if x.bUpnpMsg then s.endUpnp else s
    let s := s.onCtrl fun c =>
      if c.opMode = .staMode ∧ x.bssInfra then c.setState .waitEapfail else c
    s.onCtrl fun c => { applyProfile x c with wscPinCode := 0, wscMode := .pin }
  else s

def wscEapRegistrarAction (x : Call) (s : Registrar) : Option (Answer × Registrar) := do
  let s := startUpnp x s
  if x.msgType = .other then some (.nothing, s)
  else
    let (rv, answer, c) ← registrarSwitch crypt x s.ctrl
    let s := s.onCtrl fun _ => c
    let (answer, s) ← if rv ≠ .noError then registrarFail x rv s else some (answer, resetUpnp x s)
    some (answer, registrarDone x s)

end RalinkSdk.Wps
