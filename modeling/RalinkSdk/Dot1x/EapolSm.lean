import RalinkSdk.Lib.Run
import Mathlib

/-!
# The 802.1X authenticator state machines

Four machines share one record per station: the authenticator PAE, the backend that
talks to the RADIUS server, the reauthentication timer and the key transmission.
`eapol_sm_step` lets each of them take one step, in this order, until a whole pass
leaves all four states as they were.

`SM_ENTRY` reports every state that is entered, and the entry actions call procedures
that send frames or tell the driver about the port.  The record keeps these reports and
calls, and the flags that are raised from outside, in `log`, latest first.

## Source

`user/802.1x/eapol_sm.c`, `eapol_sm.h`, `ieee802_1x.c`.
-/

namespace RalinkSdk.Dot1x

open Lib

/-! ## Data -/

inductive PortTypes where
  | forceUnauthorized
  | forceAuthorized
  | auto
  deriving DecidableEq

inductive PortState where
  | unauthorized
  | authorized
  deriving DecidableEq

inductive AuthPaeState where
  | init
  | disconnected
  | connecting
  | authenticating
  | authenticated
  | aborting
  | held
  | forceAuth
  | forceUnauth
  deriving DecidableEq

inductive BeAuthState where
  | request
  | response
  | success
  | fail
  | timeout
  | idle
  | init
  deriving DecidableEq

inductive ReauthTimerState where
  | init
  | reauthenticate
  deriving DecidableEq

inductive AuthKeyTxState where
  | noKeyTransmit
  | keyTransmit
  deriving DecidableEq

/-- `struct eapol_auth_pae_sm` -/
structure AuthPae where
  eapLogoff : Bool
  eapStart : Bool
  portMode : PortTypes
  reAuthCount : BitVec 32
  rxInitialRsp : Bool
  quietPeriod : BitVec 32
  reAuthMax : BitVec 32
  txPeriod : BitVec 32
  state : AuthPaeState

/-- `struct eapol_backend_auth_sm` -/
structure BeAuth where
  reqCount : BitVec 32
  rxResp : Bool
  aSuccess : Bool
  aFail : Bool
  aReq : Bool
  idFromServer : BitVec 8
  suppTimeout : BitVec 32
  serverTimeout : BitVec 32
  maxReq : BitVec 32
  state : BeAuthState

/-- `struct eapol_reauth_timer_sm` -/
structure ReauthTimer where
  reAuthPeriod : BitVec 32
  reAuthEnabled : Bool
  state : ReauthTimerState

/-- The flags a frame from the station or a reply of the server raises. -/
inductive Flag where
  | eapStart
  | eapLogoff
  | rxInitialRsp
  | rxResp
  | aReq
  | aSuccess
  | aFail
  deriving DecidableEq

/-- What the log keeps: states entered, procedures called, flags raised. -/
inductive Act where
  | authPae (s : AuthPaeState)
  | beAuth (s : BeAuthState)
  | reauthTimer (s : ReauthTimerState)
  | authKeyTx (s : AuthKeyTxState)
  | setPortAuthorized
  | setPortUnauthorized
  | txCannedFail (id : BitVec 8)
  | txCannedSuccess (id : BitVec 8)
  | txInitialMsg (id : BitVec 8)
  | txReq (id : BitVec 8)
  | sendRespToServer
  | txKey (id : BitVec 8)
  | raised (f : Flag)
  deriving DecidableEq

/-- `struct eapol_state_machine`.  The timers are signed; `init` is `initialize`. -/
structure EapolSm where
  aWhile : BitVec 32
  quietWhile : BitVec 32
  reAuthWhen : BitVec 32
  txWhen : BitVec 32
  authAbort : Bool
  authFail : Bool
  authStart : Bool
  authTimeout : Bool
  authSuccess : Bool
  currentId : BitVec 8
  init : Bool
  keyAvailable : Bool
  keyTxEnabled : Bool
  portControl : PortTypes
  portEnabled : Bool
  portStatus : PortState
  portValid : Bool
  reAuthenticate : Bool
  authPae : AuthPae
  beAuth : BeAuth
  reauthTimer : ReauthTimer
  authKeyTx : AuthKeyTxState
  log : List Act

/-- The part of `struct rtapd_config` that `eapol_sm_alloc` reads. -/
structure RtapdConfig where
  quietInterval : BitVec 32
  sessionTimeoutSet : Bool
  sessionTimeoutInterval : BitVec 32

namespace EapolSm

variable (sm : EapolSm)

/-- Adds to the log. -/
def note (a : Act) : EapolSm := { sm with log := a :: sm.log }

/-! ## Authenticator PAE -/

def authPaeEntry (s : AuthPaeState) : EapolSm :=
  { sm with authPae.state := s, log := .authPae s :: sm.log }

def authPaeInitialize : EapolSm :=
  { sm.authPaeEntry .init with currentId := 1, authPae.portMode := .auto }

/-- `SM_STATE(AUTH_PAE, DISCONNECTED)`.  The canned failure is not sent when the state is
    entered from `INITIALIZE`. -/
def authPaeDisconnected : EapolSm :=
  let fromInitialize := sm.authPae.state == .init
  let sm := sm.authPaeEntry .disconnected
  let sm := { sm with portStatus := .unauthorized }.note .setPortUnauthorized
  let sm := { sm with authPae.eapLogoff := false, authPae.reAuthCount := 0 }
  if !fromInitialize then
    { sm.note (.txCannedFail sm.currentId) with currentId := sm.currentId + 1 }
  else sm

def authPaeConnecting : EapolSm :=
  let sm := sm.authPaeEntry .connecting
  let sm := { sm with
    authPae.eapStart := false
    reAuthenticate := false
    txWhen := sm.authPae.txPeriod
    authPae.rxInitialRsp := false }
  let sm := sm.note (.txInitialMsg sm.currentId)
  { sm with authPae.reAuthCount := sm.authPae.reAuthCount + 1 }

def authPaeHeld : EapolSm :=
  let sm := sm.authPaeEntry .held
  let sm := { sm with portStatus := .unauthorized }.note .setPortUnauthorized
  { sm with
    quietWhile := sm.authPae.quietPeriod
    authPae.eapLogoff := false
    currentId := sm.currentId + 1 }

def authPaeAuthenticated : EapolSm :=
  let sm := sm.authPaeEntry .authenticated
  let sm := { sm with portStatus := .authorized }.note .setPortAuthorized
  { sm with authPae.reAuthCount := 0, currentId := sm.currentId + 1 }

def authPaeAuthenticating : EapolSm :=
  { sm.authPaeEntry .authenticating with
    authSuccess := false
    authFail := false
    authTimeout := false
    authStart := true }

def authPaeAborting : EapolSm :=
  { sm.authPaeEntry .aborting with authAbort := true, currentId := sm.currentId + 1 }

def authPaeForceAuth : EapolSm :=
  let sm := sm.authPaeEntry .forceAuth
  let sm := { sm with portStatus := .authorized }.note .setPortAuthorized
  let sm := { sm with authPae.portMode := .forceAuthorized, authPae.eapStart := false }
  { sm.note (.txCannedSuccess sm.currentId) with currentId := sm.currentId + 1 }

def authPaeForceUnauth : EapolSm :=
  let sm := sm.authPaeEntry .forceUnauth
  let sm := { sm with portStatus := .unauthorized }.note .setPortUnauthorized
  let sm := { sm with authPae.portMode := .forceUnauthorized, authPae.eapStart := false }
  { sm.note (.txCannedFail sm.currentId) with currentId := sm.currentId + 1 }

def authPaeSwitch : EapolSm :=
  match sm.authPae.state with
  | .init => sm.authPaeDisconnected
  | .disconnected => sm.authPaeConnecting
  | .held => if sm.quietWhile == 0 then sm.authPaeConnecting else sm
  | .connecting =>
    if sm.authPae.eapLogoff || sm.authPae.reAuthMax < sm.authPae.reAuthCount then
      sm.authPaeDisconnected
    else if sm.authPae.rxInitialRsp && sm.authPae.reAuthCount ≤ sm.authPae.reAuthMax then
      sm.authPaeAuthenticating
    else if (sm.txWhen == 0 || sm.authPae.eapStart || sm.reAuthenticate) &&
        sm.authPae.reAuthCount ≤ sm.authPae.reAuthMax then
      sm.authPaeConnecting
    else sm
  | .authenticated =>
    if sm.authPae.eapStart || sm.reAuthenticate then sm.authPaeConnecting
    else if sm.authPae.eapLogoff || !sm.portValid then sm.authPaeDisconnected
    else sm
  | .authenticating =>
    if sm.authSuccess && sm.portValid then sm.authPaeAuthenticated
    else if sm.authFail then sm.authPaeHeld
    else if sm.reAuthenticate || sm.authPae.eapStart || sm.authPae.eapLogoff ||
        sm.authTimeout then
      sm.authPaeAborting
    else sm
  | .aborting =>
    if sm.authPae.eapLogoff && !sm.authAbort then sm.authPaeDisconnected
    else if !sm.authPae.eapLogoff && !sm.authAbort then sm.authPaeConnecting
    else sm
  | .forceAuth => if sm.authPae.eapStart then sm.authPaeForceAuth else sm
  | .forceUnauth => if sm.authPae.eapStart then sm.authPaeForceUnauth else sm

def authPaeStep : EapolSm :=
  if (sm.portControl == .auto && sm.authPae.portMode != sm.portControl) ||
      sm.init || !sm.portEnabled then
    sm.authPaeInitialize
  else if sm.portControl == .forceAuthorized && sm.authPae.portMode != sm.portControl &&
      !(sm.init || !sm.portEnabled) then
    sm.authPaeForceAuth
  else if sm.portControl == .forceUnauthorized && sm.authPae.portMode != sm.portControl &&
      !(sm.init || !sm.portEnabled) then
    sm.authPaeForceUnauth
  else sm.authPaeSwitch

/-! ## Backend -/

def beAuthEntry (s : BeAuthState) : EapolSm :=
  { sm with beAuth.state := s, log := .beAuth s :: sm.log }

def beAuthInitialize : EapolSm :=
  { sm.beAuthEntry .init with authAbort := false }

def beAuthRequest : EapolSm :=
  let sm := sm.beAuthEntry .request
  let sm := { sm with currentId := sm.beAuth.idFromServer }
  let sm := sm.note (.txReq sm.currentId)
  { sm with aWhile := sm.beAuth.suppTimeout, beAuth.reqCount := sm.beAuth.reqCount + 1 }

def beAuthResponse : EapolSm :=
  let sm := sm.beAuthEntry .response
  let sm := { sm with
    beAuth.aReq := false
    beAuth.aSuccess := false
    authTimeout := false
    beAuth.rxResp := false
    beAuth.aFail := false
    aWhile := sm.beAuth.serverTimeout
    beAuth.reqCount := 0 }
  sm.note .sendRespToServer

def beAuthSuccess : EapolSm :=
  let sm := sm.beAuthEntry .success
  let sm := { sm with currentId := sm.beAuth.idFromServer }
  { sm.note (.txReq sm.currentId) with authSuccess := true }

def beAuthFail : EapolSm :=
  let sm := sm.beAuthEntry .fail
  let sm := { sm with currentId := sm.beAuth.idFromServer }
  { sm.note (.txReq sm.currentId) with authFail := true }

def beAuthTimeout : EapolSm :=
  let sm := sm.beAuthEntry .timeout
  let sm := if sm.portStatus == .unauthorized then sm.note (.txCannedFail sm.currentId) else sm
  { sm with authTimeout := true }

def beAuthIdle : EapolSm :=
  { sm.beAuthEntry .idle with authStart := false, beAuth.reqCount := 0 }

def beAuthStep : EapolSm :=
  if sm.portControl != .auto || sm.init || sm.authAbort then sm.beAuthInitialize
  else
    match sm.beAuth.state with
    | .init => sm.beAuthIdle
    | .request =>
      if sm.aWhile == 0 && sm.beAuth.reqCount != sm.beAuth.maxReq then sm.beAuthRequest
      else if sm.beAuth.rxResp then sm.beAuthResponse
      else if sm.aWhile == 0 && sm.beAuth.maxReq ≤ sm.beAuth.reqCount then sm.beAuthTimeout
      else sm
    | .response =>
      if sm.beAuth.aReq then sm.beAuthRequest
      else if sm.aWhile == 0 then sm.beAuthTimeout
      else if sm.beAuth.aFail then sm.beAuthFail
      else if sm.beAuth.aSuccess then sm.beAuthSuccess
      else sm
    | .success => sm.beAuthIdle
    | .fail => sm.beAuthIdle
    | .timeout => sm.beAuthIdle
    | .idle => if sm.authStart then sm.beAuthResponse else sm

/-! ## Reauthentication timer -/

def reauthTimerEntry (s : ReauthTimerState) : EapolSm :=
  { sm with reauthTimer.state := s, log := .reauthTimer s :: sm.log }

def reauthTimerInitialize : EapolSm :=
  { sm.reauthTimerEntry .init with reAuthWhen := sm.reauthTimer.reAuthPeriod }

def reauthTimerReauthenticate : EapolSm :=
  { sm.reauthTimerEntry .reauthenticate with reAuthenticate := true }

def reauthTimerStep : EapolSm :=
  if sm.portControl != .auto || sm.init || sm.portStatus == .unauthorized ||
      !sm.reauthTimer.reAuthEnabled then
    sm.reauthTimerInitialize
  else
    match sm.reauthTimer.state with
    | .init => if sm.reAuthWhen == 0 then sm.reauthTimerReauthenticate else sm
    | .reauthenticate => sm.reauthTimerInitialize

/-! ## Key transmission -/

def authKeyTxEntry (s : AuthKeyTxState) : EapolSm :=
  { sm with authKeyTx := s, log := .authKeyTx s :: sm.log }

def authKeyTxKeyTransmit : EapolSm :=
  let sm := sm.authKeyTxEntry .keyTransmit
  { sm.note (.txKey sm.currentId) with keyAvailable := false }

def authKeyTxStep : EapolSm :=
  if sm.init || sm.portControl != .auto then sm.authKeyTxEntry .noKeyTransmit
  else
    match sm.authKeyTx with
    | .noKeyTransmit =>
      if sm.keyTxEnabled && sm.keyAvailable && sm.authSuccess then sm.authKeyTxKeyTransmit
      else sm
    | .keyTransmit =>
      if !sm.keyTxEnabled || sm.authFail || sm.authPae.eapLogoff then
        sm.authKeyTxEntry .noKeyTransmit
      else if sm.keyAvailable then sm.authKeyTxKeyTransmit
      else sm

/-! ## The step loop -/

def eapolSmPass : EapolSm :=
  sm.authPaeStep.beAuthStep.reauthTimerStep.authKeyTxStep

/-- The four states the loop compares. -/
def states : AuthPaeState × BeAuthState × ReauthTimerState × AuthKeyTxState :=
  (sm.authPae.state, sm.beAuth.state, sm.reauthTimer.state, sm.authKeyTx)

/-- `eapol_sm_step`, up to its first `n` passes: the loop ends when a pass leaves the
    states as they were. -/
def eapolSmStep : Nat → EapolSm → EapolSm
  | 0, sm => sm
  | n + 1, sm => if sm.eapolSmPass.states = sm.states then sm.eapolSmPass
      else eapolSmStep n sm.eapolSmPass

/-- `eapol_sm_initialize`: the first call of `eapol_sm_step` ends after one pass, the
    second after two. -/
def eapolSmInitialize : EapolSm :=
  let sm := eapolSmStep 1 { sm with init := true }
  eapolSmStep 2 { sm with init := false }

end EapolSm

def eapolSmZero (conf : RtapdConfig) : EapolSm where
  aWhile := 0
  quietWhile := 0
  reAuthWhen := 0
  txWhen := 0
  authAbort := false
  authFail := false
  authStart := false
  authTimeout := false
  authSuccess := false
  currentId := 1
  init := false
  keyAvailable := false
  keyTxEnabled := true
  portControl := .auto
  portEnabled := false
  portStatus := .unauthorized
  portValid := true
  reAuthenticate := false
  authPae := ⟨false, false, .forceUnauthorized, 0, false, conf.quietInterval, 2, 30, .init⟩
  beAuth := ⟨0, false, false, false, false, 0, 30, 30, 2, .init⟩
  reauthTimer := ⟨if conf.sessionTimeoutSet then conf.sessionTimeoutInterval else 3600, true,
    .init⟩
  authKeyTx := .noKeyTransmit
  log := []

def eapolSmAlloc (conf : RtapdConfig) : EapolSm := (eapolSmZero conf).eapolSmInitialize

/-! ## Events -/

/-- What happens to a machine from outside.  A reply of the server brings the
    identifier of its EAP packet, if it has one. -/
inductive Event where
  /-- `ieee802_1x_new_station` enables the port. -/
  | portEnable
  | eapStart
  | eapLogoff
  /-- A response to the identity request. -/
  | rxInitialRsp
  /-- Any other response. -/
  | rxResp
  /-- `Access-Accept`: a new reauthentication period, whether keys came along. -/
  | accessAccept (reAuthPeriod : Option (BitVec 32)) (keys : Bool) (id : Option (BitVec 8))
  /-- `Access-Reject` -/
  | accessReject (id : Option (BitVec 8))
  /-- `Access-Challenge`: a new timeout for the supplicant. -/
  | accessChallenge (suppTimeout : Option (BitVec 32)) (id : Option (BitVec 8))
  /-- `eapol_port_timers_tick` -/
  | tick
  /-- `eapol_sm_step` once more, as after every received frame. -/
  | step
  deriving DecidableEq

namespace EapolSm

/-- `ieee802_1x_decapsulate_radius` -/
def decapsulate (sm : EapolSm) (id : Option (BitVec 8)) : EapolSm :=
  { sm with beAuth.idFromServer := id.getD sm.beAuth.idFromServer }

/-- A timer of `eapol_port_timers_tick`. -/
def countDown (t : BitVec 32) : BitVec 32 := if (0#32).slt t then t - 1 else t

/-- What an event sets before `eapol_sm_step` is called. -/
def raise (sm : EapolSm) : Event → EapolSm
  | .portEnable => { sm with portEnabled := true }
  | .eapStart => { sm with authPae.eapStart := true }.note (.raised .eapStart)
  | .eapLogoff => { sm with authPae.eapLogoff := true }.note (.raised .eapLogoff)
  | .rxInitialRsp => { sm with authPae.rxInitialRsp := true }.note (.raised .rxInitialRsp)
  | .rxResp => { sm with beAuth.rxResp := true }.note (.raised .rxResp)
  | .accessAccept reAuthPeriod keys id =>
    let sm := { sm with reauthTimer.reAuthPeriod := reAuthPeriod.getD sm.reauthTimer.reAuthPeriod }
    let sm := { sm with beAuth.aSuccess := true }.note (.raised .aSuccess)
    { sm with keyAvailable := sm.keyAvailable || keys }.decapsulate id
  | .accessReject id =>
    ({ sm with beAuth.aFail := true }.note (.raised .aFail)).decapsulate id
  | .accessChallenge suppTimeout id =>
    let sm := { sm with beAuth.suppTimeout := suppTimeout.getD sm.beAuth.suppTimeout }
    ({ sm with beAuth.aReq := true }.note (.raised .aReq)).decapsulate id
  | .tick => { sm with
      aWhile := countDown sm.aWhile
      quietWhile := countDown sm.quietWhile
      reAuthWhen := countDown sm.reAuthWhen
      txWhen := countDown sm.txWhen }
  | .step => sm

/-- An event and the first `n` passes of the call of `eapol_sm_step` that follows it. -/
def handle (sm : EapolSm) (e : Event × Nat) : EapolSm := eapolSmStep e.2 (sm.raise e.1)

end EapolSm

/-- The machine of a station after a sequence of events. -/
def eapolRun (conf : RtapdConfig) (es : List (Event × Nat)) : EapolSm :=
  runEvents EapolSm.handle (eapolSmAlloc conf) es

end RalinkSdk.Dot1x
