import RalinkSdk.Dot1x.EapolFreshness
import RalinkSdk.Lib.Loop

/-!
# When `eapol_sm_step` ends

The loop of `eapol_sm_step` ends when a pass leaves the states of the four machines as they were.
The machines feed each other within a call: the timer asks for a reauthentication, which restarts
the PAE, which starts the backend, whose verdict opens or closes the port, which resets the timer.

What nobody raises within a call is used up by it: responses, starts, verdicts and keys.  What is
left is the reauthentication timer.  With a period of 0 it changes its state in every pass as long
as the port is authorized, and that ends when the PAE, asked for a reauthentication, counts its
attempts up to the limit and closes the port.  A PAE that does not listen never does so.
-/

namespace RalinkSdk.Dot1x

open Lib StateTransition Nat

namespace EapolSm

/-! ## The loop -/

/-- The loop is left behind a pass that leaves the states as they were. -/
def stepPass (sm : EapolSm) : Option EapolSm :=
  if sm.eapolSmPass.states = sm.states then none else some sm.eapolSmPass

/-- `eapol_sm_step` ends. -/
def Terminates (sm : EapolSm) : Prop := (eval stepPass sm).Dom

/-- The PAE does not leave its state, whatever the timer asks for. -/
def Blocked (sm : EapolSm) : Prop :=
  sm.portEnabled = false ∨ sm.authPae.portMode = sm.portControl ∧
    (sm.authPae.state = .held ∧ sm.quietWhile ≠ 0 ∨
      (sm.authPae.state = .forceAuth ∨ sm.authPae.state = .forceUnauth) ∧
        sm.authPae.eapStart = false)

/-- **The timer alternates**: it runs with a period of 0, has expired, and the port stays
    authorized. -/
structure Alternates (sm : EapolSm) : Prop where
  init_eq : sm.init = false
  portControl_eq : sm.portControl = .auto
  enabled : sm.reauthTimer.reAuthEnabled = true
  authorized : sm.portStatus = .authorized
  period : sm.reauthTimer.reAuthPeriod = 0
  expired : sm.reauthTimer.state = .reauthenticate ∨ sm.reAuthWhen = 0
  blocked : sm.Blocked

/-! ## What the passes use up -/

/-- How far the PAE is from the states it only leaves for each other or not at all. -/
def authPaeRank (sm : EapolSm) : Nat :=
  if sm.portEnabled = false then
    if sm.authPae.state = .init then 0 else 1
  else if sm.authPae.portMode ≠ sm.portControl then 7
  else
    match sm.authPae.state with
    | .forceAuth => if sm.authPae.eapStart then 8 else 0
    | .forceUnauth => if sm.authPae.eapStart then 8 else 0
    | .init => 6
    | .connecting => if sm.authPae.rxInitialRsp || sm.authPae.eapStart then 5 else 0
    | .authenticating => 4
    | .authenticated => 3
    | .aborting => 3
    | .held => 3
    | .disconnected => if sm.authPae.rxInitialRsp || sm.authPae.eapStart then 1 else 0

/-- How far the backend is from waiting for somebody. -/
def beAuthRank (sm : EapolSm) : Nat :=
  if sm.authAbort then 6
  else if sm.portControl ≠ .auto then if sm.beAuth.state = .init then 0 else 1
  else
    match sm.beAuth.state with
    | .idle => if sm.authStart then 3 else 0
    | .init => 1
    | .success => 1
    | .fail => 1
    | .timeout => 1
    | .response => if sm.beAuth.aReq || sm.beAuth.aFail || sm.beAuth.aSuccess then 5 else 2
    | .request => 4

/-- How often a key can be sent yet, and taken back. -/
def authKeyTxRank (sm : EapolSm) : Nat :=
  (if sm.keyAvailable then 2 else 0) + (if sm.authKeyTx = .keyTransmit then 1 else 0)

/-- How far the timer is from asking a PAE that listens. -/
def askRank (sm : EapolSm) : Nat :=
  if sm.reAuthenticate then 0 else if sm.reauthTimer.state = .reauthenticate then 2 else 1

def Running (sm : EapolSm) : Prop :=
  sm.portControl = .auto ∧ sm.portStatus = .authorized ∧ sm.reauthTimer.reAuthEnabled = true

instance instDecidableRunning (sm : EapolSm) : Decidable sm.Running :=
  inferInstanceAs (Decidable (_ ∧ _ ∧ _))

/-- How far the timer is from running down, where nobody listens. -/
def idleRank (sm : EapolSm) : Nat :=
  if sm.reauthTimer.state = .reauthenticate then 1
  else if sm.Running ∧ sm.reAuthWhen = 0 then 2
  else 0

/-- The port is closed; the timer stops. -/
def closedRank (sm : EapolSm) : Nat :=
  (if sm.reauthTimer.state = .reauthenticate then 4 else 0) +
    if sm.authPae.state = .connecting then
      if sm.authPae.eapLogoff || sm.authPae.reAuthMax < sm.authPae.reAuthCount then 2 else 0
    else if sm.authPae.eapLogoff || sm.authPae.reAuthMax.toNat < sm.authPae.reAuthCount.toNat + 1 then 3
    else 1

/-- The port is open while the PAE tries to connect; it is closed when it has tried too often. -/
def openRank (sm : EapolSm) : Nat :=
  if sm.authPae.state = .connecting then
    if sm.authPae.eapLogoff || sm.authPae.reAuthMax < sm.authPae.reAuthCount then 8
    else 8 + 3 * (sm.authPae.reAuthMax.toNat + 1 - sm.authPae.reAuthCount.toNat) + sm.askRank
  else 8 + 3 * (2 ^ 32 + 2)

/-- What is used up when the PAE comes no nearer, and neither do the backend and the keys. -/
def timerRank (sm : EapolSm) : Nat :=
  if sm.portEnabled = false then sm.idleRank
  else
    match sm.authPae.state with
    | .connecting => if sm.portStatus = .unauthorized then sm.closedRank else sm.openRank
    | .disconnected => if sm.portStatus = .unauthorized then sm.closedRank else sm.openRank
    | .held => sm.idleRank
    | .forceAuth => sm.idleRank
    | .forceUnauth => sm.idleRank
    | .init => sm.askRank
    | .authenticating => sm.askRank
    | .authenticated => sm.askRank
    | .aborting => sm.askRank

/-- **What a pass uses up**, the PAE first. -/
def passRank (sm : EapolSm) : Nat :=
  ((sm.authPaeRank * 8 + sm.beAuthRank) * 4 + sm.authKeyTxRank) * 2 ^ 36 + sm.timerRank

variable {sm sm' : EapolSm}

/-! ## The PAE -/

/-- The PAE leaves the backend, the timer and the keys alone. -/
structure PaeFrame (sm sm' : EapolSm) : Prop where
  init : sm'.init = sm.init
  portControl : sm'.portControl = sm.portControl
  portEnabled : sm'.portEnabled = sm.portEnabled
  beAuth : sm'.beAuth = sm.beAuth
  reauthTimer : sm'.reauthTimer = sm.reauthTimer
  reAuthWhen : sm'.reAuthWhen = sm.reAuthWhen
  authKeyTx : sm'.authKeyTx = sm.authKeyTx
  keyAvailable : sm'.keyAvailable = sm.keyAvailable
  reAuthMax : sm'.authPae.reAuthMax = sm.authPae.reAuthMax

theorem PaeFrame.refl (sm : EapolSm) : PaeFrame sm sm := ⟨rfl, rfl, rfl, rfl, rfl, rfl, rfl, rfl, rfl⟩

theorem authPaeDisconnected_frame (sm : EapolSm) : PaeFrame sm sm.authPaeDisconnected := by
  unfold authPaeDisconnected
  dsimp only
  split
  · exact ⟨rfl, rfl, rfl, rfl, rfl, rfl, rfl, rfl, rfl⟩
  · exact ⟨rfl, rfl, rfl, rfl, rfl, rfl, rfl, rfl, rfl⟩

theorem authPaeDisconnected_fields (sm : EapolSm) :
    sm.authPaeDisconnected.authPae.state = .disconnected ∧
      sm.authPaeDisconnected.authPae.portMode = sm.authPae.portMode ∧
      sm.authPaeDisconnected.authPae.rxInitialRsp = sm.authPae.rxInitialRsp ∧
      sm.authPaeDisconnected.authPae.eapStart = sm.authPae.eapStart ∧
      sm.authPaeDisconnected.authPae.eapLogoff = false ∧
      sm.authPaeDisconnected.authPae.reAuthCount = 0 ∧
      sm.authPaeDisconnected.portStatus = .unauthorized ∧
      sm.authPaeDisconnected.authAbort = sm.authAbort ∧
      sm.authPaeDisconnected.authStart = sm.authStart := by
  unfold authPaeDisconnected
  dsimp only
  split
  · exact ⟨rfl, rfl, rfl, rfl, rfl, rfl, rfl, rfl, rfl⟩
  · exact ⟨rfl, rfl, rfl, rfl, rfl, rfl, rfl, rfl, rfl⟩

theorem authPaeConnecting_frame (sm : EapolSm) : PaeFrame sm sm.authPaeConnecting :=
  ⟨rfl, rfl, rfl, rfl, rfl, rfl, rfl, rfl, rfl⟩

theorem authPaeInitialize_frame (sm : EapolSm) : PaeFrame sm sm.authPaeInitialize :=
  ⟨rfl, rfl, rfl, rfl, rfl, rfl, rfl, rfl, rfl⟩

theorem authPaeForceAuth_frame (sm : EapolSm) : PaeFrame sm sm.authPaeForceAuth := by
  unfold authPaeForceAuth
  exact ⟨rfl, rfl, rfl, rfl, rfl, rfl, rfl, rfl, rfl⟩

theorem authPaeForceUnauth_frame (sm : EapolSm) : PaeFrame sm sm.authPaeForceUnauth := by
  unfold authPaeForceUnauth
  exact ⟨rfl, rfl, rfl, rfl, rfl, rfl, rfl, rfl, rfl⟩

theorem authPaeAuthenticating_frame (sm : EapolSm) : PaeFrame sm sm.authPaeAuthenticating :=
  ⟨rfl, rfl, rfl, rfl, rfl, rfl, rfl, rfl, rfl⟩

theorem authPaeAuthenticated_frame (sm : EapolSm) : PaeFrame sm sm.authPaeAuthenticated :=
  ⟨rfl, rfl, rfl, rfl, rfl, rfl, rfl, rfl, rfl⟩

theorem authPaeHeld_frame (sm : EapolSm) : PaeFrame sm sm.authPaeHeld :=
  ⟨rfl, rfl, rfl, rfl, rfl, rfl, rfl, rfl, rfl⟩

theorem authPaeAborting_frame (sm : EapolSm) : PaeFrame sm sm.authPaeAborting :=
  ⟨rfl, rfl, rfl, rfl, rfl, rfl, rfl, rfl, rfl⟩

/-- What the switch of the PAE leads to: the state it was in, or one that it enters. -/
inductive Switched (sm : EapolSm) : EapolSm → Prop where
  | stays : Switched sm sm
  | disconnected : Switched sm sm.authPaeDisconnected
  | connecting : Switched sm sm.authPaeConnecting
  | authenticating : Switched sm sm.authPaeAuthenticating
  | authenticated : Switched sm sm.authPaeAuthenticated
  | held : Switched sm sm.authPaeHeld
  | aborting : Switched sm sm.authPaeAborting
  | forceAuth (h : sm.authPae.state = .forceAuth) : Switched sm sm.authPaeForceAuth
  | forceUnauth (h : sm.authPae.state = .forceUnauth) : Switched sm sm.authPaeForceUnauth

theorem authPaeSwitch_switched (sm : EapolSm) : Switched sm sm.authPaeSwitch := by
  unfold authPaeSwitch
  split
  case h_1 => exact .disconnected
  case h_2 => exact .connecting
  case h_3 =>
    split
    · exact .connecting
    · exact .stays
  case h_4 =>
    split
    · exact .disconnected
    split
    · exact .authenticating
    split
    · exact .connecting
    · exact .stays
  case h_5 =>
    split
    · exact .connecting
    split
    · exact .disconnected
    · exact .stays
  case h_6 =>
    split
    · exact .authenticated
    split
    · exact .held
    split
    · exact .aborting
    · exact .stays
  case h_7 =>
    split
    · exact .disconnected
    split
    · exact .connecting
    · exact .stays
  case h_8 hstate =>
    split
    · exact .forceAuth hstate
    · exact .stays
  case h_9 hstate =>
    split
    · exact .forceUnauth hstate
    · exact .stays

theorem authPaeSwitch_frame (sm : EapolSm) : PaeFrame sm sm.authPaeSwitch := by
  generalize hsm : sm.authPaeSwitch = sm'
  have hswitched : Switched sm sm' := hsm ▸ authPaeSwitch_switched sm
  cases hswitched with
  | stays => exact .refl sm
  | disconnected => exact authPaeDisconnected_frame sm
  | connecting => exact authPaeConnecting_frame sm
  | authenticating => exact authPaeAuthenticating_frame sm
  | authenticated => exact authPaeAuthenticated_frame sm
  | held => exact authPaeHeld_frame sm
  | aborting => exact authPaeAborting_frame sm
  | forceAuth => exact authPaeForceAuth_frame sm
  | forceUnauth => exact authPaeForceUnauth_frame sm

theorem authPaeStep_frame (sm : EapolSm) : PaeFrame sm sm.authPaeStep := by
  unfold authPaeStep
  split
  · exact authPaeInitialize_frame sm
  split
  · exact authPaeForceAuth_frame sm
  split
  · exact authPaeForceUnauth_frame sm
  · exact authPaeSwitch_frame sm

/-- What the PAE can do without coming nearer to where it stays. -/
inductive Stays (sm sm' : EapolSm) : Prop where
  /-- It is reset in every pass. -/
  | off (hoff : sm.portEnabled = false) (hstate : sm'.authPae.state = sm.authPae.state)
      (hstatus : sm'.portStatus = sm.portStatus)
  /-- It listens to nobody. -/
  | blocked (hblocked : sm.Blocked) (hstate : sm.authPae.state = .held ∨
      sm.authPae.state = .forceAuth ∨ sm.authPae.state = .forceUnauth) (heq : sm' = sm)
  /-- It waits for a verdict, or for the end of a session. -/
  | waits (hon : sm.portEnabled = true) (hstate : sm.authPae.state = .authenticating ∨
      sm.authPae.state = .authenticated) (hask : sm.reAuthenticate = false) (heq : sm' = sm)
  /-- It waits for the backend to give up. -/
  | aborts (habort : sm.authAbort = true) (heq : sm' = sm)
  /-- It waits for a station. -/
  | listens (hon : sm.portEnabled = true) (hstate : sm.authPae.state = .connecting)
      (hcause : ¬ (sm.authPae.eapLogoff || sm.authPae.reAuthMax < sm.authPae.reAuthCount) = true)
      (hask : sm.reAuthenticate = false) (heq : sm' = sm)
  /-- It tries once more. -/
  | retries (hon : sm.portEnabled = true) (hstate : sm.authPae.state = .connecting)
      (hcause : ¬ (sm.authPae.eapLogoff || sm.authPae.reAuthMax < sm.authPae.reAuthCount) = true)
      (heq : sm' = sm.authPaeConnecting)
  /-- It gives up. -/
  | leaves (hon : sm.portEnabled = true) (hstate : sm.authPae.state = .connecting)
      (hcause : (sm.authPae.eapLogoff || sm.authPae.reAuthMax < sm.authPae.reAuthCount) = true)
      (heq : sm' = sm.authPaeDisconnected)
  /-- It begins again. -/
  | returns (hon : sm.portEnabled = true) (hstate : sm.authPae.state = .disconnected)
      (heq : sm' = sm.authPaeConnecting)

/-- The result of a step of the PAE. -/
def PaeNext (sm sm' : EapolSm) : Prop :=
  sm'.authPaeRank < sm.authPaeRank ∨
    sm'.authPaeRank = sm.authPaeRank ∧ sm'.authAbort = sm.authAbort ∧
      sm'.authStart = sm.authStart ∧ Stays sm sm'

theorem paeNext_idle (h : Stays sm sm) : PaeNext sm sm := .inr ⟨rfl, rfl, rfl, h⟩

theorem authPaeRank_on (sm : EapolSm) (hon : sm.portEnabled = true)
    (hmode : sm.authPae.portMode = sm.portControl) : sm.authPaeRank =
    match sm.authPae.state with
    | .forceAuth => if sm.authPae.eapStart then 8 else 0
    | .forceUnauth => if sm.authPae.eapStart then 8 else 0
    | .init => 6
    | .connecting => if sm.authPae.rxInitialRsp || sm.authPae.eapStart then 5 else 0
    | .authenticating => 4
    | .authenticated => 3
    | .aborting => 3
    | .held => 3
    | .disconnected => if sm.authPae.rxInitialRsp || sm.authPae.eapStart then 1 else 0 := by
  have hno : ¬ sm.portEnabled = false := by simp [hon]
  rw [authPaeRank, if_neg hno, if_neg (not_not.mpr hmode)]

section

variable (hon : sm.portEnabled = true) (hmode : sm.authPae.portMode = sm.portControl)

include hon hmode

theorem authPaeRank_connecting : sm.authPaeConnecting.authPaeRank = 0 :=
  authPaeRank_on sm.authPaeConnecting hon hmode

theorem authPaeRank_disconnected : sm.authPaeDisconnected.authPaeRank =
    if sm.authPae.rxInitialRsp || sm.authPae.eapStart then 1 else 0 := by
  have hframe := authPaeDisconnected_frame sm
  obtain ⟨hstate, hmode', hrsp, hstart, -⟩ := authPaeDisconnected_fields sm
  rw [authPaeRank_on _ (hframe.portEnabled.trans hon)
    (hmode'.trans (hmode.trans hframe.portControl.symm)), hstate, hrsp, hstart]

theorem authPaeRank_disconnected_le : sm.authPaeDisconnected.authPaeRank ≤ 1 := by
  rw [authPaeRank_disconnected hon hmode]
  split
  · exact Nat.le_refl 1
  · exact Nat.zero_le 1

/-- **The switch** takes the PAE nearer to where it stays, or lets it stay. -/
theorem authPaeSwitch_next : PaeNext sm sm.authPaeSwitch := by
  have hrank := authPaeRank_on sm hon hmode
  have hconn := authPaeRank_connecting hon hmode
  have hdisc := authPaeRank_disconnected_le hon hmode
  have hblocked : ∀ h : sm.authPae.state = .held ∧ sm.quietWhile ≠ 0 ∨
      (sm.authPae.state = .forceAuth ∨ sm.authPae.state = .forceUnauth) ∧
        sm.authPae.eapStart = false, sm.Blocked := fun h => .inr ⟨hmode, h⟩
  unfold authPaeSwitch
  split
  · next hstate =>
    simp only [hstate] at hrank
    exact .inl (by omega)
  · next hstate =>
    -- `DISCONNECTED`
    simp only [hstate] at hrank
    by_cases hlate : (sm.authPae.rxInitialRsp || sm.authPae.eapStart) = true
    · rw [if_pos hlate] at hrank
      exact .inl (by omega)
    · rw [if_neg hlate] at hrank
      exact .inr ⟨by rw [hconn, hrank], rfl, rfl, .returns hon hstate rfl⟩
  · next hstate =>
    -- `HELD`
    simp only [hstate] at hrank
    split
    · exact .inl (by omega)
    · next hquiet =>
      exact paeNext_idle (.blocked (hblocked (.inl ⟨hstate, by simpa using hquiet⟩))
        (.inl hstate) rfl)
  · next hstate =>
    -- `CONNECTING`: with a response or a start it has not come here by a pass
    simp only [hstate] at hrank
    split
    · next hcause =>
      obtain ⟨-, -, -, -, -, -, -, habort, hstart⟩ := authPaeDisconnected_fields sm
      by_cases hlate : (sm.authPae.rxInitialRsp || sm.authPae.eapStart) = true
      · rw [if_pos hlate] at hrank
        exact .inl (by omega)
      · rw [if_neg hlate] at hrank
        refine .inr ⟨?_, habort, hstart, .leaves hon hstate hcause rfl⟩
        rw [authPaeRank_disconnected hon hmode, if_neg hlate, hrank]
    next hcause =>
    have hcount : sm.authPae.reAuthCount ≤ sm.authPae.reAuthMax := by
      simp only [Bool.or_eq_true, decide_eq_true_eq, not_or, BitVec.not_lt] at hcause
      exact hcause.2
    split
    · next hrsp =>
      have hrsp' : sm.authPae.rxInitialRsp = true := by
        simp only [Bool.and_eq_true] at hrsp
        exact hrsp.1
      have hfour : sm.authPaeAuthenticating.authPaeRank = 4 :=
        authPaeRank_on sm.authPaeAuthenticating hon hmode
      rw [hrsp', Bool.true_or, if_pos rfl] at hrank
      exact .inl (by omega)
    next hnoRsp =>
    have hrsp : sm.authPae.rxInitialRsp = false := by
      simpa [hcount] using hnoRsp
    split
    · by_cases hstart : sm.authPae.eapStart = true
      · rw [hstart, Bool.or_true, if_pos rfl] at hrank
        exact .inl (by omega)
      · rw [hrsp, Bool.false_or, if_neg hstart] at hrank
        exact .inr ⟨by rw [hconn, hrank], rfl, rfl, .retries hon hstate hcause rfl⟩
    · next hidle =>
      have hask : sm.reAuthenticate = false := by
        simp only [hcount, decide_true, Bool.and_true, Bool.or_eq_true, not_or] at hidle
        simpa using hidle.2
      exact paeNext_idle (.listens hon hstate hcause hask rfl)
  · next hstate =>
    -- `AUTHENTICATED`
    simp only [hstate] at hrank
    split
    · exact .inl (by omega)
    next hidle =>
    split
    · exact .inl (by omega)
    · have hask : sm.reAuthenticate = false := by
        simp only [Bool.or_eq_true, not_or] at hidle
        simpa using hidle.2
      exact paeNext_idle (.waits hon (.inr hstate) hask rfl)
  · next hstate =>
    -- `AUTHENTICATING`
    simp only [hstate] at hrank
    split
    · have hthree : sm.authPaeAuthenticated.authPaeRank = 3 :=
        authPaeRank_on sm.authPaeAuthenticated hon hmode
      exact .inl (by omega)
    split
    · have hthree : sm.authPaeHeld.authPaeRank = 3 :=
        authPaeRank_on sm.authPaeHeld hon hmode
      exact .inl (by omega)
    split
    · have hthree : sm.authPaeAborting.authPaeRank = 3 :=
        authPaeRank_on sm.authPaeAborting hon hmode
      exact .inl (by omega)
    · next hidle =>
      have hask : sm.reAuthenticate = false := by
        simp only [Bool.or_eq_true, not_or] at hidle
        simpa using hidle.1.1.1
      exact paeNext_idle (.waits hon (.inl hstate) hask rfl)
  · next hstate =>
    -- `ABORTING`
    simp only [hstate] at hrank
    split
    · exact .inl (by omega)
    next hdisc' =>
    split
    · exact .inl (by omega)
    · next hconn' =>
      have habort : sm.authAbort = true := by
        cases hlogoff : sm.authPae.eapLogoff with
        | true => simpa [hlogoff] using hdisc'
        | false => simpa [hlogoff] using hconn'
      exact paeNext_idle (.aborts habort rfl)
  · next hstate =>
    -- `FORCE_AUTH`
    simp only [hstate] at hrank
    split
    · next hstart =>
      rw [if_pos hstart] at hrank
      have hseven : sm.authPaeForceAuth.authPaeRank ≤ 7 := by
        have hno : ¬ sm.authPaeForceAuth.portEnabled = false := by
          show ¬ sm.portEnabled = false
          simp [hon]
        rw [authPaeRank, if_neg hno]
        split
        · exact Nat.le_refl 7
        · exact Nat.zero_le 7
      exact .inl (by omega)
    · next hstart =>
      exact paeNext_idle (.blocked (hblocked (.inr ⟨.inl hstate, by simpa using hstart⟩))
        (.inr (.inl hstate)) rfl)
  · next hstate =>
    -- `FORCE_UNAUTH`
    simp only [hstate] at hrank
    split
    · next hstart =>
      rw [if_pos hstart] at hrank
      have hseven : sm.authPaeForceUnauth.authPaeRank ≤ 7 := by
        have hno : ¬ sm.authPaeForceUnauth.portEnabled = false := by
          show ¬ sm.portEnabled = false
          simp [hon]
        rw [authPaeRank, if_neg hno]
        split
        · exact Nat.le_refl 7
        · exact Nat.zero_le 7
      exact .inl (by omega)
    · next hstart =>
      exact paeNext_idle (.blocked (hblocked (.inr ⟨.inr hstate, by simpa using hstart⟩))
        (.inr (.inr hstate)) rfl)

end

/-- **A step of the PAE** takes it nearer to where it stays, or lets it stay. -/
theorem authPaeStep_next (hinit : sm.init = false) : PaeNext sm sm.authPaeStep := by
  cases hon : sm.portEnabled with
  | false =>
    have hstep : sm.authPaeStep = sm.authPaeInitialize := by simp [authPaeStep, hon]
    have hzero : sm.authPaeInitialize.authPaeRank = 0 := by
      have hoff : sm.authPaeInitialize.portEnabled = false := hon
      rw [authPaeRank, if_pos hoff]
      rfl
    rw [hstep]
    by_cases hstate : sm.authPae.state = .init
    · refine .inr ⟨?_, rfl, rfl, .off hon ?_ rfl⟩
      · rw [hzero, authPaeRank, if_pos hon, if_pos hstate]
      · rw [hstate]
        rfl
    · refine .inl ?_
      rw [hzero, authPaeRank, if_pos hon, if_neg hstate]
      exact Nat.zero_lt_one
  | true =>
    by_cases hmode : sm.authPae.portMode = sm.portControl
    · have hstep : sm.authPaeStep = sm.authPaeSwitch := by
        simp [authPaeStep, hinit, hon, hmode]
      rw [hstep]
      exact authPaeSwitch_next hon hmode
    · -- the mode becomes that of the port
      have hno : ¬ sm.portEnabled = false := by simp [hon]
      have hseven : sm.authPaeRank = 7 := by rw [authPaeRank, if_neg hno, if_pos hmode]
      refine .inl ?_
      rw [hseven]
      cases hcontrol : sm.portControl with
      | auto =>
        have hstep : sm.authPaeStep = sm.authPaeInitialize := by
          rw [hcontrol] at hmode
          simp [authPaeStep, hcontrol, hmode]
        have hsix : sm.authPaeInitialize.authPaeRank = 6 :=
          authPaeRank_on sm.authPaeInitialize hon hcontrol.symm
        rw [hstep, hsix]
        decide
      | forceAuthorized =>
        have hstep : sm.authPaeStep = sm.authPaeForceAuth := by
          rw [hcontrol] at hmode
          simp [authPaeStep, hinit, hon, hcontrol, hmode]
        have hzero : sm.authPaeForceAuth.authPaeRank = 0 :=
          authPaeRank_on sm.authPaeForceAuth hon hcontrol.symm
        rw [hstep, hzero]
        decide
      | forceUnauthorized =>
        have hstep : sm.authPaeStep = sm.authPaeForceUnauth := by
          rw [hcontrol] at hmode
          simp [authPaeStep, hinit, hon, hcontrol, hmode]
        have hzero : sm.authPaeForceUnauth.authPaeRank = 0 :=
          authPaeRank_on sm.authPaeForceUnauth hon hcontrol.symm
        rw [hstep, hzero]
        decide

/-! ## The backend -/

/-- The backend leaves the PAE, the timer and the keys alone, apart from the verdicts. -/
structure BackendFrame (sm sm' : EapolSm) : Prop where
  init : sm'.init = sm.init
  portControl : sm'.portControl = sm.portControl
  portEnabled : sm'.portEnabled = sm.portEnabled
  portStatus : sm'.portStatus = sm.portStatus
  authPae : sm'.authPae = sm.authPae
  quietWhile : sm'.quietWhile = sm.quietWhile
  reAuthenticate : sm'.reAuthenticate = sm.reAuthenticate
  reauthTimer : sm'.reauthTimer = sm.reauthTimer
  reAuthWhen : sm'.reAuthWhen = sm.reAuthWhen
  authKeyTx : sm'.authKeyTx = sm.authKeyTx
  keyAvailable : sm'.keyAvailable = sm.keyAvailable

theorem BackendFrame.refl (sm : EapolSm) : BackendFrame sm sm :=
  ⟨rfl, rfl, rfl, rfl, rfl, rfl, rfl, rfl, rfl, rfl, rfl⟩

theorem beAuthTimeout_frame (sm : EapolSm) : BackendFrame sm sm.beAuthTimeout := by
  unfold beAuthTimeout
  dsimp only
  split
  · exact ⟨rfl, rfl, rfl, rfl, rfl, rfl, rfl, rfl, rfl, rfl, rfl⟩
  · exact ⟨rfl, rfl, rfl, rfl, rfl, rfl, rfl, rfl, rfl, rfl, rfl⟩

theorem beAuthTimeout_fields (sm : EapolSm) :
    sm.beAuthTimeout.beAuth.state = .timeout ∧ sm.beAuthTimeout.authAbort = sm.authAbort := by
  unfold beAuthTimeout
  dsimp only
  split
  · exact ⟨rfl, rfl⟩
  · exact ⟨rfl, rfl⟩

theorem beAuthStep_frame (sm : EapolSm) : BackendFrame sm sm.beAuthStep := by
  have hsame := BackendFrame.refl sm
  have htimeout := beAuthTimeout_frame sm
  have hrequest : BackendFrame sm sm.beAuthRequest :=
    ⟨rfl, rfl, rfl, rfl, rfl, rfl, rfl, rfl, rfl, rfl, rfl⟩
  have hresponse : BackendFrame sm sm.beAuthResponse :=
    ⟨rfl, rfl, rfl, rfl, rfl, rfl, rfl, rfl, rfl, rfl, rfl⟩
  have hidle : BackendFrame sm sm.beAuthIdle :=
    ⟨rfl, rfl, rfl, rfl, rfl, rfl, rfl, rfl, rfl, rfl, rfl⟩
  unfold beAuthStep
  split
  · exact ⟨rfl, rfl, rfl, rfl, rfl, rfl, rfl, rfl, rfl, rfl, rfl⟩
  split
  · exact hidle
  · split
    · exact hrequest
    split
    · exact hresponse
    split
    · exact htimeout
    · exact hsame
  · split
    · exact hrequest
    split
    · exact htimeout
    split
    · exact ⟨rfl, rfl, rfl, rfl, rfl, rfl, rfl, rfl, rfl, rfl, rfl⟩
    split
    · exact ⟨rfl, rfl, rfl, rfl, rfl, rfl, rfl, rfl, rfl, rfl, rfl⟩
    · exact hsame
  · exact hidle
  · exact hidle
  · exact hidle
  · split
    · exact hresponse
    · exact hsame

theorem beAuthRank_auto (sm : EapolSm) (habort : sm.authAbort = false)
    (hauto : sm.portControl = .auto) :
    sm.beAuthRank =
      match sm.beAuth.state with
      | .idle => if sm.authStart then 3 else 0
      | .init => 1
      | .success => 1
      | .fail => 1
      | .timeout => 1
      | .response => if sm.beAuth.aReq || sm.beAuth.aFail || sm.beAuth.aSuccess then 5 else 2
      | .request => 4 := by
  have hno : ¬ sm.authAbort = true := by simp [habort]
  rw [beAuthRank, if_neg hno, if_neg (not_not.mpr hauto)]

/-- The result of a step of the backend: it comes nearer to waiting, or stays in its state. -/
def BackendNext (sm sm' : EapolSm) : Prop :=
  sm'.beAuthRank < sm.beAuthRank ∨ sm'.beAuthRank = sm.beAuthRank ∧
    sm'.beAuth.state = sm.beAuth.state ∧ sm.authAbort = false

/-- **A step of the backend** uses up the flags it acts on. -/
theorem beAuthStep_next (hinit : sm.init = false) : BackendNext sm sm.beAuthStep := by
  by_cases hreset : (sm.portControl != .auto || sm.init || sm.authAbort) = true
  · have hstep : sm.beAuthStep = sm.beAuthInitialize := by rw [beAuthStep, if_pos hreset]
    have hrank : sm.beAuthInitialize.beAuthRank = if sm.portControl ≠ .auto then 0 else 1 := rfl
    rw [hstep, BackendNext, hrank]
    cases habort : sm.authAbort with
    | true =>
      have hsix : sm.beAuthRank = 6 := by rw [beAuthRank, if_pos habort]
      refine .inl ?_
      rw [hsix]
      split
      · decide
      · decide
    | false =>
      have hcontrol : sm.portControl ≠ .auto := by simpa [hinit, habort] using hreset
      have hno : ¬ sm.authAbort = true := by simp [habort]
      have hold : sm.beAuthRank = if sm.beAuth.state = .init then 0 else 1 := by
        rw [beAuthRank, if_neg hno, if_pos hcontrol]
      rw [hold, if_pos hcontrol]
      by_cases hstate : sm.beAuth.state = .init
      · rw [if_pos hstate]
        exact .inr ⟨rfl, hstate.symm, rfl⟩
      · rw [if_neg hstate]
        exact .inl Nat.zero_lt_one
  · have hflags : (sm.portControl = .auto ∧ sm.init = false) ∧ sm.authAbort = false := by
      simpa using hreset
    obtain ⟨⟨hauto, -⟩, habort⟩ := hflags
    have hold := beAuthRank_auto sm habort hauto
    have hsame : BackendNext sm sm := .inr ⟨rfl, rfl, habort⟩
    have hidle : sm.beAuthIdle.beAuthRank = 0 := beAuthRank_auto sm.beAuthIdle habort hauto
    have hrequest : sm.beAuthRequest.beAuthRank = 4 :=
      beAuthRank_auto sm.beAuthRequest habort hauto
    have hresponse : sm.beAuthResponse.beAuthRank = 2 :=
      beAuthRank_auto sm.beAuthResponse habort hauto
    have hsuccess : sm.beAuthSuccess.beAuthRank = 1 :=
      beAuthRank_auto sm.beAuthSuccess habort hauto
    have hfail : sm.beAuthFail.beAuthRank = 1 :=
      beAuthRank_auto sm.beAuthFail habort hauto
    have htimeout : sm.beAuthTimeout.beAuthRank = 1 := by
      obtain ⟨hstate, hab⟩ := beAuthTimeout_fields sm
      rw [beAuthRank_auto _ (hab.trans habort) ((beAuthTimeout_frame sm).portControl.trans hauto),
        hstate]
    rw [beAuthStep, if_neg hreset]
    split
    · next hstate =>
      simp only [hstate] at hold
      exact .inl (by omega)
    · next hstate =>
      -- `REQUEST`
      simp only [hstate] at hold
      split
      · exact .inr ⟨by rw [hrequest, hold], hstate.symm, habort⟩
      split
      · exact .inl (by omega)
      split
      · exact .inl (by omega)
      · exact hsame
    · next hstate =>
      -- `RESPONSE`
      simp only [hstate] at hold
      have htwo : 2 ≤ sm.beAuthRank := by
        rw [hold]
        split
        · decide
        · exact Nat.le_refl 2
      split
      · next hreq =>
        rw [hreq, Bool.true_or, Bool.true_or, if_pos rfl] at hold
        exact .inl (by omega)
      split
      · exact .inl (by omega)
      split
      · exact .inl (by omega)
      split
      · exact .inl (by omega)
      · exact hsame
    · next hstate =>
      simp only [hstate] at hold
      exact .inl (by omega)
    · next hstate =>
      simp only [hstate] at hold
      exact .inl (by omega)
    · next hstate =>
      simp only [hstate] at hold
      exact .inl (by omega)
    · next hstate =>
      -- `IDLE`
      simp only [hstate] at hold
      split
      · next hstart =>
        rw [if_pos hstart] at hold
        exact .inl (by omega)
      · exact hsame

/-! ## The keys -/

/-- The key transmission leaves everything else alone. -/
structure KeyFrame (sm sm' : EapolSm) : Prop where
  init : sm'.init = sm.init
  portControl : sm'.portControl = sm.portControl
  portEnabled : sm'.portEnabled = sm.portEnabled
  portStatus : sm'.portStatus = sm.portStatus
  authPae : sm'.authPae = sm.authPae
  quietWhile : sm'.quietWhile = sm.quietWhile
  reAuthenticate : sm'.reAuthenticate = sm.reAuthenticate
  reauthTimer : sm'.reauthTimer = sm.reauthTimer
  reAuthWhen : sm'.reAuthWhen = sm.reAuthWhen
  authAbort : sm'.authAbort = sm.authAbort
  authStart : sm'.authStart = sm.authStart
  beAuth : sm'.beAuth = sm.beAuth

/-- **A step of the key transmission** uses up a key, or takes one back. -/
theorem authKeyTxStep_next (sm : EapolSm) : KeyFrame sm sm.authKeyTxStep ∧
      (sm.authKeyTxStep.authKeyTxRank < sm.authKeyTxRank ∨
        sm.authKeyTxStep.authKeyTxRank = sm.authKeyTxRank ∧
          sm.authKeyTxStep.authKeyTx = sm.authKeyTx) := by
  have hsame : KeyFrame sm sm := ⟨rfl, rfl, rfl, rfl, rfl, rfl, rfl, rfl, rfl, rfl, rfl, rfl⟩
  have hnone : KeyFrame sm (sm.authKeyTxEntry .noKeyTransmit) :=
    ⟨rfl, rfl, rfl, rfl, rfl, rfl, rfl, rfl, rfl, rfl, rfl, rfl⟩
  have htransmit : KeyFrame sm sm.authKeyTxKeyTransmit :=
    ⟨rfl, rfl, rfl, rfl, rfl, rfl, rfl, rfl, rfl, rfl, rfl, rfl⟩
  have hone : sm.authKeyTxKeyTransmit.authKeyTxRank = 1 := rfl
  have hback : (sm.authKeyTxEntry .noKeyTransmit).authKeyTxRank =
      if sm.keyAvailable then 2 else 0 := rfl
  -- going back to `NO_KEY_TRANSMIT` counts only if the machine was not there
  have hreset : (sm.authKeyTxEntry .noKeyTransmit).authKeyTxRank < sm.authKeyTxRank ∨
      (sm.authKeyTxEntry .noKeyTransmit).authKeyTxRank = sm.authKeyTxRank ∧
        (sm.authKeyTxEntry .noKeyTransmit).authKeyTx = sm.authKeyTx := by
    rw [hback, authKeyTxRank]
    cases hstate : sm.authKeyTx with
    | noKeyTransmit => exact .inr ⟨rfl, rfl⟩
    | keyTransmit => exact .inl (lt_succ_self _)
  unfold authKeyTxStep
  split
  · exact ⟨hnone, hreset⟩
  split
  · next hstate =>
    split
    · next hkey =>
      simp only [Bool.and_eq_true] at hkey
      refine ⟨htransmit, .inl ?_⟩
      rw [hone, authKeyTxRank, if_pos hkey.1.2]
      exact Nat.lt_of_lt_of_le (lt_succ_self 1) (Nat.le_add_right 2 _)
    · exact ⟨hsame, .inr ⟨rfl, rfl⟩⟩
  · next hstate =>
    split
    · exact ⟨hnone, hreset⟩
    split
    · next hkey =>
      refine ⟨htransmit, .inl ?_⟩
      rw [hone, authKeyTxRank, if_pos hkey, if_pos hstate]
      decide
    · exact ⟨hsame, .inr ⟨rfl, rfl⟩⟩

/-! ## The timer -/

inductive TimerNext (sm sm' : EapolSm) : Prop where
  /-- It stands still, or is set again behind its expiry. -/
  | resets (hcause : ¬ sm.Running ∨ sm.reauthTimer.state = .reauthenticate)
      (heq : sm' = sm.reauthTimerInitialize)
  /-- It expires. -/
  | expires (hrun : sm.Running) (hstate : sm.reauthTimer.state = .init) (hwhen : sm.reAuthWhen = 0)
      (heq : sm' = sm.reauthTimerReauthenticate)
  /-- It runs. -/
  | runs (hrun : sm.Running) (hstate : sm.reauthTimer.state = .init) (hwhen : sm.reAuthWhen ≠ 0)
      (heq : sm' = sm)

theorem running_iff (hinit : sm.init = false) :
    sm.Running ↔ ¬ (sm.portControl != .auto || sm.init || sm.portStatus == .unauthorized ||
      !sm.reauthTimer.reAuthEnabled) = true := by
  have hstatus : sm.portStatus = .authorized ↔ sm.portStatus ≠ .unauthorized := by
    cases sm.portStatus with
    | authorized => simp
    | unauthorized => simp
  simp [Running, hinit, hstatus, and_assoc]

theorem reauthTimerStep_next (hinit : sm.init = false) : TimerNext sm sm.reauthTimerStep := by
  have hrunning := running_iff hinit
  unfold reauthTimerStep
  split
  · next hstop => exact .resets (.inl fun hrun => hrunning.mp hrun hstop) rfl
  next hgo =>
  have hrun := hrunning.mpr hgo
  split
  · next hstate =>
    split
    · next hwhen => exact .expires hrun hstate (by simpa using hwhen) rfl
    · next hwhen => exact .runs hrun hstate (by simpa using hwhen) rfl
  · next hstate => exact .resets (.inr hstate) rfl

/-- The timer leaves everything else alone. -/
structure TimerFrame (sm sm' : EapolSm) : Prop where
  init : sm'.init = sm.init
  portControl : sm'.portControl = sm.portControl
  portEnabled : sm'.portEnabled = sm.portEnabled
  portStatus : sm'.portStatus = sm.portStatus
  authPae : sm'.authPae = sm.authPae
  quietWhile : sm'.quietWhile = sm.quietWhile
  reAuthPeriod : sm'.reauthTimer.reAuthPeriod = sm.reauthTimer.reAuthPeriod
  reAuthEnabled : sm'.reauthTimer.reAuthEnabled = sm.reauthTimer.reAuthEnabled
  authAbort : sm'.authAbort = sm.authAbort
  authStart : sm'.authStart = sm.authStart
  beAuth : sm'.beAuth = sm.beAuth
  authKeyTx : sm'.authKeyTx = sm.authKeyTx
  keyAvailable : sm'.keyAvailable = sm.keyAvailable

theorem TimerNext.frame (h : TimerNext sm sm') : TimerFrame sm sm' := by
  cases h with
  | resets _ heq =>
    subst heq
    exact ⟨rfl, rfl, rfl, rfl, rfl, rfl, rfl, rfl, rfl, rfl, rfl, rfl, rfl⟩
  | expires _ _ _ heq =>
    subst heq
    exact ⟨rfl, rfl, rfl, rfl, rfl, rfl, rfl, rfl, rfl, rfl, rfl, rfl, rfl⟩
  | runs _ _ _ heq =>
    subst heq
    exact ⟨rfl, rfl, rfl, rfl, rfl, rfl, rfl, rfl, rfl, rfl, rfl, rfl, rfl⟩

theorem TimerFrame.running_iff (h : TimerFrame sm sm') : sm'.Running ↔ sm.Running := by
  rw [Running, Running, h.portControl, h.portStatus, h.reAuthEnabled]

theorem TimerNext.askRank_lt (h : TimerNext sm sm') (hask : sm.reAuthenticate = false)
    (hmoved : sm'.reauthTimer.state ≠ sm.reauthTimer.state) : sm'.askRank < sm.askRank := by
  have hno : ¬ sm.reAuthenticate = true := by simp [hask]
  have hold : sm.askRank = if sm.reauthTimer.state = .reauthenticate then 2 else 1 := by
    rw [askRank, if_neg hno]
  rw [hold]
  cases h with
  | resets _ heq =>
    subst heq
    cases hstate : sm.reauthTimer.state with
    | init => exact absurd hstate.symm hmoved
    | reauthenticate =>
      have hone : sm.reauthTimerInitialize.askRank = 1 := by
        have hno' : ¬ sm.reauthTimerInitialize.reAuthenticate = true := hno
        rw [askRank, if_neg hno']
        rfl
      rw [hone]
      decide
  | expires _ hstate _ heq =>
    subst heq
    rw [hstate]
    exact Nat.zero_lt_one
  | runs _ _ _ heq => exact absurd (by rw [heq]) hmoved

theorem TimerNext.idleRank_lt (h : TimerNext sm sm')
    (hperiod : sm.Running → sm.reauthTimer.state = .reauthenticate →
      sm.reauthTimer.reAuthPeriod ≠ 0)
    (hmoved : sm'.reauthTimer.state ≠ sm.reauthTimer.state) : sm'.idleRank < sm.idleRank := by
  have hframe := h.frame
  cases h with
  | resets _ heq =>
    subst heq
    cases hstate : sm.reauthTimer.state with
    | init => exact absurd hstate.symm hmoved
    | reauthenticate =>
      have hzero : sm.reauthTimerInitialize.idleRank = 0 := by
        have hinit : ¬ sm.reauthTimerInitialize.reauthTimer.state = .reauthenticate :=
          ReauthTimerState.noConfusion
        have hquiet : ¬ (sm.reauthTimerInitialize.Running ∧
            sm.reauthTimerInitialize.reAuthWhen = 0) := fun hboth =>
          hperiod (hframe.running_iff.mp hboth.1) hstate hboth.2
        rw [idleRank, if_neg hinit, if_neg hquiet]
      rw [hzero, idleRank, if_pos hstate]
      exact Nat.zero_lt_one
  | expires hrun hstate hwhen heq =>
    subst heq
    have hinit : ¬ sm.reauthTimer.state = .reauthenticate := by simp [hstate]
    have hone : sm.reauthTimerReauthenticate.idleRank = 1 := rfl
    rw [hone, idleRank, if_neg hinit, if_pos ⟨hrun, hwhen⟩]
    decide
  | runs _ _ _ heq => exact absurd (by rw [heq]) hmoved

theorem askRank_le (sm : EapolSm) : sm.askRank ≤ 2 := by
  unfold askRank
  split
  · exact Nat.zero_le 2
  split
  · exact Nat.le_refl 2
  · exact le_succ 1

/-! ## What is left to the timer -/

theorem idleRank_congr (hcontrol : sm'.portControl = sm.portControl)
    (hstatus : sm'.portStatus = sm.portStatus) (htimer : sm'.reauthTimer = sm.reauthTimer)
    (hwhen : sm'.reAuthWhen = sm.reAuthWhen) : sm'.idleRank = sm.idleRank := by
  have hrun : sm'.Running ↔ sm.Running := by
    simp only [Running, hcontrol, hstatus, htimer]
  simp only [idleRank, hrun, htimer, hwhen]

theorem KeyFrame.timerRank_eq (h : KeyFrame sm sm') : sm'.timerRank = sm.timerRank := by
  have hidle : sm'.idleRank = sm.idleRank :=
    idleRank_congr h.portControl h.portStatus h.reauthTimer h.reAuthWhen
  have hask : sm'.askRank = sm.askRank := by
    rw [askRank, askRank, h.reAuthenticate, h.reauthTimer]
  have hclosed : sm'.closedRank = sm.closedRank := by
    rw [closedRank, closedRank, h.reauthTimer, h.authPae]
  have hopen : sm'.openRank = sm.openRank := by
    rw [openRank, openRank, h.authPae, hask]
  rw [timerRank, timerRank, h.portEnabled, h.authPae, h.portStatus, hidle, hask, hclosed, hopen]

theorem timerRank_idle (h : sm.portEnabled = false ∨ sm.authPae.state = .held ∨
    sm.authPae.state = .forceAuth ∨ sm.authPae.state = .forceUnauth) :
    sm.timerRank = sm.idleRank := by
  unfold timerRank
  split
  · rfl
  next hon =>
  rcases h with hoff | hstate | hstate | hstate
  · exact absurd hoff hon
  · rw [hstate]
  · rw [hstate]
  · rw [hstate]

theorem timerRank_waits (hon : sm.portEnabled = true) (hstate : sm.authPae.state = .authenticating ∨
    sm.authPae.state = .authenticated) : sm.timerRank = sm.askRank := by
  have hno : ¬ sm.portEnabled = false := by simp [hon]
  rw [timerRank, if_neg hno]
  rcases hstate with hstate | hstate
  · rw [hstate]
  · rw [hstate]

theorem timerRank_connects (hon : sm.portEnabled = true) (hstate : sm.authPae.state = .connecting ∨
    sm.authPae.state = .disconnected) :
    sm.timerRank = if sm.portStatus = .unauthorized then sm.closedRank else sm.openRank := by
  have hno : ¬ sm.portEnabled = false := by simp [hon]
  rw [timerRank, if_neg hno]
  rcases hstate with hstate | hstate
  · rw [hstate]
  · rw [hstate]

theorem TimerNext.state_of_closed (h : TimerNext sm sm') (hclosed : sm.portStatus = .unauthorized) :
    sm'.reauthTimer.state = .init := by
  have hstopped : ¬ sm.Running := fun hrun => by simp [Running, hclosed] at hrun
  cases h with
  | resets _ heq =>
    subst heq
    rfl
  | expires hrun _ _ _ => exact absurd hrun hstopped
  | runs hrun _ _ _ => exact absurd hrun hstopped

theorem closedRank_connecting (htimer : sm.reauthTimer.state = .init)
    (hstate : sm.authPae.state = .connecting) : sm.closedRank =
      if sm.authPae.eapLogoff || sm.authPae.reAuthMax < sm.authPae.reAuthCount then 2 else 0 := by
  have hno : ¬ sm.reauthTimer.state = .reauthenticate := by simp [htimer]
  rw [closedRank, if_neg hno, if_pos hstate, Nat.zero_add]

theorem authPaeConnecting_count (hmax : sm.authPae.reAuthMax.toNat < 2 ^ 32 - 1)
    (hcount : ¬ sm.authPae.reAuthMax < sm.authPae.reAuthCount) :
    sm.authPaeConnecting.authPae.reAuthCount.toNat = sm.authPae.reAuthCount.toNat + 1 := by
  have hadd : sm.authPaeConnecting.authPae.reAuthCount = sm.authPae.reAuthCount + 1 := rfl
  rw [hadd]
  rw [BitVec.lt_def] at hcount
  bv_omega

section

variable {sm₁ sm₂ sm₃ : EapolSm} (hpae : PaeFrame sm sm₁) (hbackend : BackendFrame sm₁ sm₂)
  (htimer : TimerNext sm₂ sm₃)

include hpae hbackend htimer

theorem idleRank_lt_of_blocked (hinit : sm.init = false) (hno : ¬ sm.Alternates)
    (hblocked : sm.Blocked) (hstatus : sm₁.portStatus = sm.portStatus)
    (hmoved : sm₃.reauthTimer.state ≠ sm.reauthTimer.state) : sm₃.idleRank < sm.idleRank := by
  have htimer' := hbackend.reauthTimer.trans hpae.reauthTimer
  have hcontrol := hbackend.portControl.trans hpae.portControl
  have hstatus' := hbackend.portStatus.trans hstatus
  have hsame : sm₂.idleRank = sm.idleRank :=
    idleRank_congr hcontrol hstatus' htimer' (hbackend.reAuthWhen.trans hpae.reAuthWhen)
  rw [← hsame]
  refine htimer.idleRank_lt (fun hrun hstate hperiod => hno ?_) (by rwa [htimer'])
  obtain ⟨hauto, hopen, henabled⟩ := hrun
  rw [htimer'] at hstate hperiod henabled
  exact
    { init_eq := hinit
      portControl_eq := hcontrol.symm.trans hauto
      enabled := henabled
      authorized := hstatus'.symm.trans hopen
      period := hperiod
      expired := .inl hstate
      blocked := hblocked }

omit hpae in
theorem openRank_lt_of_retries (hmax : sm.authPae.reAuthMax.toNat < 2 ^ 32 - 1)
    (hstate : sm.authPae.state = .connecting)
    (hcause : ¬ (sm.authPae.eapLogoff || sm.authPae.reAuthMax < sm.authPae.reAuthCount) = true)
    (heq : sm₁ = sm.authPaeConnecting) : sm₃.openRank < sm.openRank := by
  have hcount : ¬ sm.authPae.reAuthMax < sm.authPae.reAuthCount := by
    simp only [Bool.or_eq_true, decide_eq_true_eq, not_or] at hcause
    exact hcause.2
  have hnext := authPaeConnecting_count hmax hcount
  have hpaeEq : sm₃.authPae = sm.authPaeConnecting.authPae :=
    htimer.frame.authPae.trans (hbackend.authPae.trans (congrArg EapolSm.authPae heq))
  have hconn : sm₃.authPae.state = .connecting := by rw [hpaeEq]; rfl
  have hlimit : sm₃.authPae.reAuthMax = sm.authPae.reAuthMax := by rw [hpaeEq]; rfl
  have hless := sm₃.askRank_le
  rw [openRank, openRank, if_pos hstate, if_pos hconn, if_neg hcause, hlimit, hpaeEq, hnext]
  have hle : sm.authPae.reAuthCount.toNat ≤ sm.authPae.reAuthMax.toNat := by
    rw [BitVec.lt_def] at hcount
    omega
  split
  · omega
  · omega

/-- **What is left to the timer gets less** in a pass in which the PAE stays, and it or the timer
    changes its state. -/
theorem timerRank_lt (hinit : sm.init = false) (hno : ¬ sm.Alternates)
    (hone : 1 ≤ sm.authPae.reAuthMax.toNat) (hmax : sm.authPae.reAuthMax.toNat < 2 ^ 32 - 1)
    (hstays : Stays sm sm₁) (habort : sm₁.authAbort = false)
    (hmoved : sm₃.authPae.state ≠ sm.authPae.state ∨
      sm₃.reauthTimer.state ≠ sm.reauthTimer.state) : sm₃.timerRank < sm.timerRank := by
  have hframe := htimer.frame
  have hpaeEq : sm₃.authPae = sm₁.authPae := hframe.authPae.trans hbackend.authPae
  have hon₃ : sm₃.portEnabled = sm.portEnabled :=
    hframe.portEnabled.trans (hbackend.portEnabled.trans hpae.portEnabled)
  have hstatus₃ : sm₃.portStatus = sm₁.portStatus := hframe.portStatus.trans hbackend.portStatus
  have htimer₂ : sm₂.reauthTimer = sm.reauthTimer :=
    hbackend.reauthTimer.trans hpae.reauthTimer
  -- as long as the PAE keeps its state it is the timer that changes
  have htimerMoved : sm₁.authPae.state = sm.authPae.state →
      sm₃.reauthTimer.state ≠ sm.reauthTimer.state := fun hsame =>
    hmoved.resolve_left fun hpaeMoved => hpaeMoved (by rw [hpaeEq, hsame])
  -- a PAE that waits is asked
  have hask : ∀ (_ : sm.reAuthenticate = false) (_ : sm₁ = sm), sm₃.askRank < sm.askRank := by
    intro hnone heq
    have hask₂ : sm₂.reAuthenticate = sm.reAuthenticate := by rw [hbackend.reAuthenticate, heq]
    have hsame : sm₂.askRank = sm.askRank := by rw [askRank, askRank, hask₂, htimer₂]
    rw [← hsame]
    refine htimer.askRank_lt (hask₂.trans hnone) ?_
    rw [htimer₂]
    exact htimerMoved (by rw [heq])
  -- a port that is closed, while the PAE connects
  have hclosed : ∀ (_ : sm₁.portStatus = .unauthorized), sm₃.reauthTimer.state = .init :=
    fun hstatus => htimer.state_of_closed (hbackend.portStatus.trans hstatus)
  cases hstays with
  | off hoff hstate hstatus =>
    rw [timerRank_idle (.inl hoff), timerRank_idle (.inl (hon₃.trans hoff))]
    exact idleRank_lt_of_blocked hpae hbackend htimer hinit hno (.inl hoff) hstatus
      (htimerMoved hstate)
  | blocked hblocked hstate heq =>
    have hstate₃ : sm₃.authPae.state = sm.authPae.state := by rw [hpaeEq, heq]
    rw [timerRank_idle (.inr hstate), timerRank_idle (.inr (by rwa [hstate₃]))]
    exact idleRank_lt_of_blocked hpae hbackend htimer hinit hno hblocked (by rw [heq])
      (htimerMoved (by rw [heq]))
  | waits hon hstate hnone heq =>
    have hstate₃ : sm₃.authPae.state = sm.authPae.state := by rw [hpaeEq, heq]
    rw [timerRank_waits hon hstate, timerRank_waits (hon₃.trans hon) (by rwa [hstate₃])]
    exact hask hnone heq
  | aborts hyes heq =>
    rw [heq] at habort
    rw [habort] at hyes
    cases hyes
  | listens hon hstate hcause hnone heq =>
    have hstate₃ : sm₃.authPae.state = .connecting := by rw [hpaeEq, heq, hstate]
    have hmoved' := htimerMoved (by rw [heq])
    rw [timerRank_connects hon (.inl hstate), timerRank_connects (hon₃.trans hon) (.inl hstate₃),
      hstatus₃, heq]
    split
    · next hstatus =>
      have hinit₃ := hclosed (by rw [heq, hstatus])
      have hexpired : sm.reauthTimer.state = .reauthenticate := by
        cases hstate : sm.reauthTimer.state with
        | init => exact absurd (hinit₃.trans hstate.symm) hmoved'
        | reauthenticate => rfl
      rw [closedRank_connecting hinit₃ hstate₃, closedRank, if_pos hexpired, hpaeEq, heq,
        if_neg hcause]
      omega
    · have hless := hask hnone heq
      rw [openRank, openRank, if_pos hstate, if_pos hstate₃, hpaeEq, heq, if_neg hcause,
        if_neg hcause]
      omega
  | retries hon hstate hcause heq =>
    have hstate₃ : sm₃.authPae.state = .connecting := by rw [hpaeEq, heq]; rfl
    have hstatus₁ : sm₁.portStatus = sm.portStatus := by rw [heq]; rfl
    have hmoved' := htimerMoved (by rw [← hpaeEq, hstate₃, hstate])
    rw [timerRank_connects hon (.inl hstate), timerRank_connects (hon₃.trans hon) (.inl hstate₃),
      hstatus₃, hstatus₁]
    split
    · next hstatus =>
      have hinit₃ := hclosed (hstatus₁.trans hstatus)
      have hexpired : sm.reauthTimer.state = .reauthenticate := by
        cases hstate : sm.reauthTimer.state with
        | init => exact absurd (hinit₃.trans hstate.symm) hmoved'
        | reauthenticate => rfl
      rw [closedRank_connecting hinit₃ hstate₃, closedRank, if_pos hexpired]
      split
      · omega
      · omega
    · exact openRank_lt_of_retries hbackend htimer hmax hstate hcause heq
  | leaves hon hstate hcause heq =>
    obtain ⟨hstate₁, -, -, -, hlogoff, hcount, hstatus₁, -, -⟩ := authPaeDisconnected_fields sm
    rw [← heq] at hstate₁ hlogoff hcount hstatus₁
    have hstate₃ : sm₃.authPae.state = .disconnected := by rw [hpaeEq, hstate₁]
    have hone₃ : sm₃.closedRank = 1 := by
      have hnotimer : ¬ sm₃.reauthTimer.state = .reauthenticate := by simp [hclosed hstatus₁]
      have hnoconn : ¬ sm₃.authPae.state = .connecting := by simp [hstate₃]
      have hnolimit : ¬ (sm₃.authPae.eapLogoff ||
          sm₃.authPae.reAuthMax.toNat < sm₃.authPae.reAuthCount.toNat + 1) = true := by
        have hpos : sm.authPae.reAuthMax.toNat ≠ 0 := one_le_iff_ne_zero.mp hone
        rw [hpaeEq, hlogoff, hcount, hpae.reAuthMax]
        simpa using hpos
      rw [closedRank, if_neg hnotimer, if_neg hnoconn, if_neg hnolimit]
    rw [timerRank_connects hon (.inl hstate), timerRank_connects (hon₃.trans hon) (.inr hstate₃),
      hstatus₃, if_pos hstatus₁, hone₃]
    split
    · rw [closedRank, if_pos hstate, if_pos hcause]
      omega
    · rw [openRank, if_pos hstate, if_pos hcause]
      decide
  | returns hon hstate heq =>
    have hstate₃ : sm₃.authPae.state = .connecting := by rw [hpaeEq, heq]; rfl
    have hstatus₁ : sm₁.portStatus = sm.portStatus := by rw [heq]; rfl
    have hnoconn : ¬ sm.authPae.state = .connecting := by simp [hstate]
    rw [timerRank_connects hon (.inr hstate), timerRank_connects (hon₃.trans hon) (.inl hstate₃),
      hstatus₃, hstatus₁]
    split
    · next hstatus =>
      have hlogoff : sm₃.authPae.eapLogoff = sm.authPae.eapLogoff := by rw [hpaeEq, heq]; rfl
      have hlimit : sm₃.authPae.reAuthMax = sm.authPae.reAuthMax := by
        rw [hpaeEq, hpae.reAuthMax]
      have hcount : sm₃.authPae.reAuthCount = sm.authPae.reAuthCount + 1 := by
        rw [hpaeEq, heq]
        rfl
      rw [closedRank_connecting (hclosed (hstatus₁.trans hstatus)) hstate₃, closedRank,
        if_neg hnoconn, hlogoff, hlimit, hcount]
      -- the count of attempts may begin again at 0
      have hadd : (sm.authPae.reAuthCount + 1).toNat ≤ sm.authPae.reAuthCount.toNat + 1 := by
        bv_omega
      simp only [BitVec.lt_def, Bool.or_eq_true, decide_eq_true_eq]
      split
      · next hcause =>
        have hcause' : sm.authPae.eapLogoff = true ∨
            sm.authPae.reAuthMax.toNat < sm.authPae.reAuthCount.toNat + 1 :=
          hcause.imp_right fun h => Nat.lt_of_lt_of_le h hadd
        rw [if_pos hcause']
        omega
      · have hpos : 1 ≤ if sm.authPae.eapLogoff = true ∨
            sm.authPae.reAuthMax.toNat < sm.authPae.reAuthCount.toNat + 1 then 3 else 1 := by
          split
          · decide
          · exact Nat.le_refl 1
        omega
    · have hless := sm₃.askRank_le
      rw [openRank, openRank, if_pos hstate₃, if_neg hnoconn]
      split
      · decide
      · have hlimit := sm₃.authPae.reAuthMax.isLt
        omega

end

/-! ## A pass -/

theorem authPaeRank_congr (hon : sm'.portEnabled = sm.portEnabled)
    (hcontrol : sm'.portControl = sm.portControl) (hpae : sm'.authPae = sm.authPae) :
    sm'.authPaeRank = sm.authPaeRank := by
  rw [authPaeRank, authPaeRank, hon, hcontrol, hpae]

theorem beAuthRank_congr (habort : sm'.authAbort = sm.authAbort)
    (hcontrol : sm'.portControl = sm.portControl) (hbe : sm'.beAuth = sm.beAuth)
    (hstart : sm'.authStart = sm.authStart) : sm'.beAuthRank = sm.beAuthRank := by
  rw [beAuthRank, beAuthRank, habort, hcontrol, hbe, hstart]

theorem authKeyTxRank_congr (hkey : sm'.keyAvailable = sm.keyAvailable)
    (hstate : sm'.authKeyTx = sm.authKeyTx) : sm'.authKeyTxRank = sm.authKeyTxRank := by
  rw [authKeyTxRank, authKeyTxRank, hkey, hstate]

theorem beAuthRank_lt (sm : EapolSm) : sm.beAuthRank < 8 := by
  unfold beAuthRank
  split
  · decide
  split
  · split
    · decide
    · decide
  split
  · split
    · decide
    · decide
  · decide
  · decide
  · decide
  · decide
  · split
    · decide
    · decide
  · decide

theorem authKeyTxRank_lt (sm : EapolSm) : sm.authKeyTxRank < 4 := by
  unfold authKeyTxRank
  split
  · split
    · decide
    · decide
  · split
    · decide
    · decide

theorem idleRank_le (sm : EapolSm) : sm.idleRank ≤ 2 := by
  unfold idleRank
  split
  · decide
  split
  · exact Nat.le_refl 2
  · exact Nat.zero_le 2

theorem closedRank_le (sm : EapolSm) : sm.closedRank ≤ 7 := by
  have htimer : (if sm.reauthTimer.state = .reauthenticate then 4 else 0) ≤ 4 := by
    split
    · exact Nat.le_refl 4
    · exact Nat.zero_le 4
  unfold closedRank
  show _ ≤ 4 + 3
  refine Nat.add_le_add htimer ?_
  split
  · split
    · decide
    · decide
  · split
    · decide
    · decide

theorem openRank_le (sm : EapolSm) : sm.openRank ≤ 8 + 3 * (2 ^ 32 + 2) := by
  have hask := sm.askRank_le
  have hlimit := sm.authPae.reAuthMax.isLt
  unfold openRank
  split
  · split
    · omega
    · omega
  · exact Nat.le_refl _

theorem timerRank_lt_two_pow (sm : EapolSm) : sm.timerRank < 2 ^ 36 := by
  have hask := sm.askRank_le
  have hidle := sm.idleRank_le
  have hclosed := sm.closedRank_le
  have hopen := sm.openRank_le
  have hconnects : (if sm.portStatus = .unauthorized then sm.closedRank else sm.openRank) <
      2 ^ 36 := by
    split
    · omega
    · omega
  unfold timerRank
  split
  · omega
  split
  · exact hconnects
  · exact hconnects
  · omega
  · omega
  · omega
  · omega
  · omega
  · omega
  · omega

theorem passRank_lt_of_lex
    (h : sm'.authPaeRank < sm.authPaeRank ∨ sm'.authPaeRank = sm.authPaeRank ∧
      (sm'.beAuthRank < sm.beAuthRank ∨ sm'.beAuthRank = sm.beAuthRank ∧
        (sm'.authKeyTxRank < sm.authKeyTxRank ∨ sm'.authKeyTxRank = sm.authKeyTxRank ∧
          sm'.timerRank < sm.timerRank))) : sm'.passRank < sm.passRank := by
  have hbe := sm'.beAuthRank_lt
  have hkey := sm'.authKeyTxRank_lt
  have htimer := sm'.timerRank_lt_two_pow
  unfold passRank
  omega

/-- **A pass that changes a state uses something up**, unless the timer alternates. -/
theorem passRank_lt (hinit : sm.init = false) (hno : ¬ sm.Alternates)
    (hone : 1 ≤ sm.authPae.reAuthMax.toNat) (hmax : sm.authPae.reAuthMax.toNat < 2 ^ 32 - 1)
    (hmoved : sm.eapolSmPass.states ≠ sm.states) : sm.eapolSmPass.passRank < sm.passRank := by
  set sm₁ := sm.authPaeStep with hsm₁
  set sm₂ := sm₁.beAuthStep with hsm₂
  set sm₃ := sm₂.reauthTimerStep with hsm₃
  have hpass : sm.eapolSmPass = sm₃.authKeyTxStep := rfl
  have hpae : PaeFrame sm sm₁ := authPaeStep_frame sm
  have hbackend : BackendFrame sm₁ sm₂ := beAuthStep_frame sm₁
  have hinit₁ : sm₁.init = false := hpae.init.trans hinit
  have htimer : TimerNext sm₂ sm₃ := reauthTimerStep_next (hbackend.init.trans hinit₁)
  have hframe := htimer.frame
  obtain ⟨hkeyFrame, hkeyNext⟩ := authKeyTxStep_next sm₃
  rw [hpass] at hmoved ⊢
  -- what the ranks of the pass are made of
  have hpaeRank : sm₃.authKeyTxStep.authPaeRank = sm₁.authPaeRank :=
    authPaeRank_congr
      (hkeyFrame.portEnabled.trans (hframe.portEnabled.trans hbackend.portEnabled))
      (hkeyFrame.portControl.trans (hframe.portControl.trans hbackend.portControl))
      (hkeyFrame.authPae.trans (hframe.authPae.trans hbackend.authPae))
  have hbeRank : sm₃.authKeyTxStep.beAuthRank = sm₂.beAuthRank :=
    beAuthRank_congr (hkeyFrame.authAbort.trans hframe.authAbort)
      (hkeyFrame.portControl.trans hframe.portControl) (hkeyFrame.beAuth.trans hframe.beAuth)
      (hkeyFrame.authStart.trans hframe.authStart)
  have hkeyRank : sm₃.authKeyTxRank = sm.authKeyTxRank :=
    authKeyTxRank_congr
      (hframe.keyAvailable.trans (hbackend.keyAvailable.trans hpae.keyAvailable))
      (hframe.authKeyTx.trans (hbackend.authKeyTx.trans hpae.authKeyTx))
  apply passRank_lt_of_lex
  rw [hpaeRank, hbeRank, hkeyFrame.timerRank_eq, ← hkeyRank]
  rcases authPaeStep_next hinit with hless | ⟨hsame, habort, hstart, hstays⟩
  · exact .inl hless
  refine .inr ⟨hsame, ?_⟩
  have hbeSame : sm₁.beAuthRank = sm.beAuthRank :=
    beAuthRank_congr habort hpae.portControl hpae.beAuth hstart
  rw [← hbeSame]
  rcases beAuthStep_next hinit₁ with hless | ⟨hsame', hstate', habort'⟩
  · exact .inl hless
  refine .inr ⟨hsame', ?_⟩
  rcases hkeyNext with hless | ⟨hsame'', hstate''⟩
  · exact .inl hless
  refine .inr ⟨hsame'', timerRank_lt hpae hbackend htimer hinit hno hone hmax hstays habort' ?_⟩
  -- neither the backend nor the keys have changed their states
  by_contra hstill
  rw [not_or, not_ne_iff, not_ne_iff] at hstill
  apply hmoved
  have hbeState : sm₃.authKeyTxStep.beAuth.state = sm.beAuth.state := by
    rw [hkeyFrame.beAuth, hframe.beAuth, hstate', hpae.beAuth]
  have hkeyState : sm₃.authKeyTxStep.authKeyTx = sm.authKeyTx := by
    rw [hstate'', hframe.authKeyTx, hbackend.authKeyTx, hpae.authKeyTx]
  rw [states, states, hbeState, hkeyState, hkeyFrame.authPae, hkeyFrame.reauthTimer, hstill.1,
    hstill.2]

/-! ## The timer that alternates -/

theorem Blocked.authPaeStep (h : sm.Blocked) (hinit : sm.init = false) :
    sm.authPaeStep.Blocked ∧ sm.authPaeStep.portStatus = sm.portStatus := by
  rcases h with hoff | ⟨hmode, hstate⟩
  · have hstep : sm.authPaeStep = sm.authPaeInitialize := by simp [EapolSm.authPaeStep, hoff]
    rw [hstep]
    exact ⟨.inl hoff, rfl⟩
  · cases hon : sm.portEnabled with
    | false =>
      have hstep : sm.authPaeStep = sm.authPaeInitialize := by simp [EapolSm.authPaeStep, hon]
      rw [hstep]
      exact ⟨.inl hon, rfl⟩
    | true =>
      have hstep : sm.authPaeStep = sm := by
        rcases hstate with ⟨hheld, hquiet⟩ | ⟨hforce | hforce, hstart⟩
        · have hrun : ¬ (sm.quietWhile == 0) = true := by simpa using hquiet
          rw [EapolSm.authPaeStep]
          simp only [hinit, hon, hmode, bne_self_eq_false, Bool.and_false, Bool.false_or,
            Bool.not_true, Bool.false_eq_true, if_false, Bool.false_and]
          rw [authPaeSwitch]
          simp only [hheld, if_neg hrun]
        · simp [EapolSm.authPaeStep, authPaeSwitch, hinit, hon, hmode, hforce, hstart]
        · simp [EapolSm.authPaeStep, authPaeSwitch, hinit, hon, hmode, hforce, hstart]
      rw [hstep]
      exact ⟨.inr ⟨hmode, hstate⟩, rfl⟩

theorem Blocked.state (h : sm.Blocked) (hon : sm.portEnabled = true) :
    sm.authPae.portMode = sm.portControl ∧ (sm.authPae.state = .held ∨
      sm.authPae.state = .forceAuth ∨ sm.authPae.state = .forceUnauth) := by
  rcases h with hoff | ⟨hmode, ⟨hheld, -⟩ | ⟨hforce | hforce, -⟩⟩
  · rw [hon] at hoff
    cases hoff
  · exact ⟨hmode, .inl hheld⟩
  · exact ⟨hmode, .inr (.inl hforce)⟩
  · exact ⟨hmode, .inr (.inr hforce)⟩

theorem blocked_of_authPaeStep (hinit : sm.init = false) (hauto : sm.portControl = .auto)
    (hopen : sm.authPaeStep.portStatus = .authorized) (h : sm.authPaeStep.Blocked) :
    sm.Blocked ∧ sm.portStatus = .authorized := by
  cases hon : sm.portEnabled with
  | false =>
    have hstep : sm.authPaeStep = sm.authPaeInitialize := by simp [EapolSm.authPaeStep, hon]
    rw [hstep] at hopen
    exact ⟨.inl hon, hopen⟩
  | true =>
    have hon' : sm.authPaeStep.portEnabled = true := (authPaeStep_frame sm).portEnabled.trans hon
    obtain ⟨hmode', hstate'⟩ := h.state hon'
    rw [(authPaeStep_frame sm).portControl, hauto] at hmode'
    by_cases hmode : sm.authPae.portMode = sm.portControl
    · have hstep : sm.authPaeStep = sm.authPaeSwitch := by
        simp [EapolSm.authPaeStep, hinit, hon, hmode]
      rw [hstep] at hopen h hmode' hstate'
      generalize hsm : sm.authPaeSwitch = sm' at hopen h hmode' hstate'
      have hswitched : Switched sm sm' := hsm ▸ authPaeSwitch_switched sm
      cases hswitched with
      | stays => exact ⟨h, hopen⟩
      | disconnected =>
        obtain ⟨-, -, -, -, -, -, hclosed, -⟩ := authPaeDisconnected_fields sm
        rw [hclosed] at hopen
        cases hopen
      | connecting => rcases hstate' with h | h | h <;> cases h
      | authenticating => rcases hstate' with h | h | h <;> cases h
      | authenticated => rcases hstate' with h | h | h <;> cases h
      | held => cases hopen
      | aborting => rcases hstate' with h | h | h <;> cases h
      | forceAuth => cases hmode'
      | forceUnauth => cases hmode'
    · have hstep : sm.authPaeStep = sm.authPaeInitialize := by
        rw [hauto] at hmode
        simp [EapolSm.authPaeStep, hauto, hmode]
      rw [hstep] at hstate'
      rcases hstate' with h | h | h <;> cases h

theorem blocked_congr (hcontrol : sm'.portControl = sm.portControl)
    (hon : sm'.portEnabled = sm.portEnabled) (hpae : sm'.authPae = sm.authPae)
    (hquiet : sm'.quietWhile = sm.quietWhile) : sm'.Blocked ↔ sm.Blocked := by
  rw [Blocked, Blocked, hcontrol, hon, hpae, hquiet]

theorem TimerNext.expired (h : TimerNext sm sm') (hrun : sm.Running)
    (hperiod : sm.reauthTimer.reAuthPeriod = 0)
    (hexpired : sm.reauthTimer.state = .reauthenticate ∨ sm.reAuthWhen = 0) :
    (sm'.reauthTimer.state = .reauthenticate ∨ sm'.reAuthWhen = 0) ∧
      sm'.reauthTimer.state ≠ sm.reauthTimer.state := by
  cases h with
  | resets hcause heq =>
    subst heq
    have hstate := hcause.resolve_left (not_not.mpr hrun)
    refine ⟨.inr hperiod, ?_⟩
    rw [hstate]
    exact ReauthTimerState.noConfusion
  | expires _ hstate _ heq =>
    subst heq
    refine ⟨.inl rfl, ?_⟩
    rw [hstate]
    exact ReauthTimerState.noConfusion
  | runs _ hstate hwhen _ =>
    rcases hexpired with hexpired | hexpired
    · rw [hstate] at hexpired
      cases hexpired
    · exact absurd hexpired hwhen

theorem TimerNext.expired_before (h : TimerNext sm sm') (hrun : sm.Running)
    (hexpired : sm'.reauthTimer.state = .reauthenticate ∨ sm'.reAuthWhen = 0) :
    sm.reauthTimer.state = .reauthenticate ∨ sm.reAuthWhen = 0 := by
  cases h with
  | resets hcause _ => exact .inl (hcause.resolve_left (not_not.mpr hrun))
  | expires _ _ hwhen _ => exact .inr hwhen
  | runs _ _ _ heq =>
    subst heq
    exact hexpired

/-- What the steps between the PAE and the end of the pass leave as the PAE has left it. -/
structure RestFrame (sm sm' : EapolSm) : Prop where
  init : sm'.init = sm.init
  portControl : sm'.portControl = sm.portControl
  portEnabled : sm'.portEnabled = sm.portEnabled
  portStatus : sm'.portStatus = sm.portStatus
  authPae : sm'.authPae = sm.authPae
  quietWhile : sm'.quietWhile = sm.quietWhile
  reAuthPeriod : sm'.reauthTimer.reAuthPeriod = sm.reauthTimer.reAuthPeriod
  reAuthEnabled : sm'.reauthTimer.reAuthEnabled = sm.reauthTimer.reAuthEnabled

theorem pass_eq (hinit : sm.init = false) : ∃ sm₂ sm₃, BackendFrame sm.authPaeStep sm₂ ∧
    TimerNext sm₂ sm₃ ∧ KeyFrame sm₃ sm.eapolSmPass ∧
      RestFrame sm.authPaeStep sm.eapolSmPass := by
  have hbackend := beAuthStep_frame sm.authPaeStep
  have htimer : TimerNext sm.authPaeStep.beAuthStep sm.authPaeStep.beAuthStep.reauthTimerStep :=
    reauthTimerStep_next (hbackend.init.trans ((authPaeStep_frame sm).init.trans hinit))
  have hframe := htimer.frame
  have hkey : KeyFrame sm.authPaeStep.beAuthStep.reauthTimerStep sm.eapolSmPass :=
    (authKeyTxStep_next sm.authPaeStep.beAuthStep.reauthTimerStep).1
  refine ⟨_, _, hbackend, htimer, hkey, ?_⟩
  exact
    { init := hkey.init.trans (hframe.init.trans hbackend.init)
      portControl := hkey.portControl.trans (hframe.portControl.trans hbackend.portControl)
      portEnabled := hkey.portEnabled.trans (hframe.portEnabled.trans hbackend.portEnabled)
      portStatus := hkey.portStatus.trans (hframe.portStatus.trans hbackend.portStatus)
      authPae := hkey.authPae.trans (hframe.authPae.trans hbackend.authPae)
      quietWhile := hkey.quietWhile.trans (hframe.quietWhile.trans hbackend.quietWhile)
      reAuthPeriod := by rw [hkey.reauthTimer, hframe.reAuthPeriod, hbackend.reauthTimer]
      reAuthEnabled := by rw [hkey.reauthTimer, hframe.reAuthEnabled, hbackend.reauthTimer] }

theorem Alternates.pass (h : sm.Alternates) :
    sm.eapolSmPass.Alternates ∧ sm.eapolSmPass.states ≠ sm.states := by
  obtain ⟨hblocked, hstatus⟩ := h.blocked.authPaeStep h.init_eq
  have hpae := authPaeStep_frame sm
  obtain ⟨sm₂, sm₃, hbackend, htimer, hkey, hrest⟩ := pass_eq h.init_eq
  have htimer₂ : sm₂.reauthTimer = sm.reauthTimer :=
    hbackend.reauthTimer.trans hpae.reauthTimer
  have hrun : sm₂.Running := by
    refine ⟨?_, ?_, ?_⟩
    · rw [hbackend.portControl, hpae.portControl, h.portControl_eq]
    · rw [hbackend.portStatus, hstatus, h.authorized]
    · rw [htimer₂, h.enabled]
  have hexpired : sm₂.reauthTimer.state = .reauthenticate ∨ sm₂.reAuthWhen = 0 := by
    rw [htimer₂, hbackend.reAuthWhen, hpae.reAuthWhen]
    exact h.expired
  obtain ⟨hnext, hmoved⟩ := htimer.expired hrun (by rw [htimer₂, h.period]) hexpired
  rw [htimer₂] at hmoved
  refine ⟨?_, fun hstates => hmoved ?_⟩
  · exact
      { init_eq := by rw [hrest.init, hpae.init, h.init_eq]
        portControl_eq := by rw [hrest.portControl, hpae.portControl, h.portControl_eq]
        enabled := by rw [hrest.reAuthEnabled, hpae.reauthTimer, h.enabled]
        authorized := by rw [hrest.portStatus, hstatus, h.authorized]
        period := by rw [hrest.reAuthPeriod, hpae.reauthTimer, h.period]
        expired := by rwa [hkey.reauthTimer, hkey.reAuthWhen]
        blocked := (blocked_congr hrest.portControl hrest.portEnabled hrest.authPae
          hrest.quietWhile).mpr hblocked }
  · rw [← hkey.reauthTimer]
    exact congrArg (fun states => states.2.2.1) hstates

theorem alternates_of_pass (hinit : sm.init = false) (h : sm.eapolSmPass.Alternates) :
    sm.Alternates := by
  have hpae := authPaeStep_frame sm
  obtain ⟨sm₂, sm₃, hbackend, htimer, hkey, hrest⟩ := pass_eq hinit
  have htimer₂ : sm₂.reauthTimer = sm.reauthTimer :=
    hbackend.reauthTimer.trans hpae.reauthTimer
  have hauto : sm.portControl = .auto := by
    rw [← hpae.portControl, ← hrest.portControl, h.portControl_eq]
  have henabled : sm.reauthTimer.reAuthEnabled = true := by
    rw [← hpae.reauthTimer, ← hrest.reAuthEnabled, h.enabled]
  have hopen : sm.authPaeStep.portStatus = .authorized := by
    rw [← hrest.portStatus, h.authorized]
  obtain ⟨hblocked, hstatus⟩ := blocked_of_authPaeStep hinit hauto hopen
    ((blocked_congr hrest.portControl hrest.portEnabled hrest.authPae hrest.quietWhile).mp
      h.blocked)
  have hrun : sm₂.Running := by
    refine ⟨?_, ?_, ?_⟩
    · rw [hbackend.portControl, hpae.portControl, hauto]
    · rw [hbackend.portStatus, hopen]
    · rw [htimer₂, henabled]
  have hexpired := h.expired
  rw [hkey.reauthTimer, hkey.reAuthWhen] at hexpired
  have hbefore := htimer.expired_before hrun hexpired
  rw [htimer₂, hbackend.reAuthWhen, hpae.reAuthWhen] at hbefore
  exact
    { init_eq := hinit
      portControl_eq := hauto
      enabled := henabled
      authorized := hstatus
      period := by rw [← hpae.reauthTimer, ← hrest.reAuthPeriod, h.period]
      expired := hbefore
      blocked := hblocked }

/-! ## The loop ends -/

theorem stepPass_eq_some {t : EapolSm} (h : sm.stepPass = some t) :
    t = sm.eapolSmPass ∧ sm.eapolSmPass.states ≠ sm.states := by
  unfold stepPass at h
  split at h
  · cases h
  · next hmoved => exact ⟨(Option.some.inj h).symm, hmoved⟩

theorem stepPass_moved (h : sm.eapolSmPass.states ≠ sm.states) :
    sm.stepPass = some sm.eapolSmPass := if_neg h

theorem states_pass_of_init (hinit : sm.init = true) : sm.eapolSmPass.init = true ∧
      sm.eapolSmPass.states = (.init, .init, .init, .noKeyTransmit) := by
  rw [eapolSmPass_init hinit]
  simp [states, authKeyTxEntry, reauthTimerInitialize, reauthTimerEntry, beAuthInitialize,
    beAuthEntry, authPaeInitialize, authPaeEntry, hinit]

theorem terminates_of_init (hinit : sm.init = true) : sm.Terminates := by
  obtain ⟨hinit', hfirst⟩ := states_pass_of_init hinit
  have hstates : sm.eapolSmPass.eapolSmPass.states = sm.eapolSmPass.states := by
    rw [hfirst, (states_pass_of_init hinit').2]
  refine eval_dom_iff.mpr ?_
  by_cases hmoved : sm.eapolSmPass.states = sm.states
  · exact ⟨sm, Relation.ReflTransGen.refl, if_pos hmoved⟩
  · exact ⟨sm.eapolSmPass, reaches_next (stepPass_moved hmoved), if_pos hstates⟩

/-- **The loop of `eapol_sm_step` ends**, for every value of the record, exactly if the timer does
    not alternate. -/
theorem terminates_iff (hone : 1 ≤ sm.authPae.reAuthMax.toNat)
    (hmax : sm.authPae.reAuthMax.toNat < 2 ^ 32 - 1) : sm.Terminates ↔ ¬ sm.Alternates := by
  constructor
  · intro hends halternates
    refine not_dom_of_invariant (P := Alternates) (fun t ht => ?_) halternates hends
    obtain ⟨hnext, hmoved⟩ := ht.pass
    exact ⟨_, stepPass_moved hmoved, hnext⟩
  · intro hno
    cases hinit : sm.init with
    | true => exact terminates_of_init hinit
    | false =>
      refine eval_dom_of_invariant (P := fun t => t.init = false ∧
        t.authPae.reAuthMax = sm.authPae.reAuthMax ∧ ¬ t.Alternates) passRank ?_
        ⟨hinit, rfl, hno⟩
      rintro t t' ⟨hinit, hlimit, hno⟩ hstep
      obtain ⟨rfl, hmoved⟩ := stepPass_eq_some hstep
      obtain ⟨-, -, -, -, -, hrest⟩ := pass_eq hinit
      refine ⟨⟨?_, ?_, fun h => hno (alternates_of_pass hinit h)⟩, ?_⟩
      · rw [hrest.init, (authPaeStep_frame t).init, hinit]
      · rw [hrest.authPae, (authPaeStep_frame t).reAuthMax, hlimit]
      · rw [← hlimit] at hone hmax
        exact passRank_lt hinit hno hone hmax hmoved

theorem Terminates.exists_eapolSmStep (h : sm.Terminates) :
    ∃ n, ∀ m, eapolSmStep (n + m) sm = eapolSmStep n sm := by
  obtain ⟨last, hreach, hend⟩ := eval_dom_iff.mp h
  induction hreach using Relation.ReflTransGen.head_induction_on with
  | refl =>
    have hstates : last.eapolSmPass.states = last.states := by
      by_contra hmoved
      rw [stepPass_moved hmoved] at hend
      cases hend
    refine ⟨1, fun m => ?_⟩
    rw [Nat.add_comm, eapolSmStep, eapolSmStep, if_pos hstates, if_pos hstates]
  | head hstep hrest ih =>
    obtain ⟨rfl, hmoved⟩ := stepPass_eq_some hstep
    obtain ⟨n, hn⟩ := ih (eval_dom_iff.mpr ⟨last, hrest, hend⟩)
    refine ⟨n + 1, fun m => ?_⟩
    rw [Nat.add_right_comm, eapolSmStep, eapolSmStep, if_neg hmoved, if_neg hmoved, hn]

/-! ## Whole runs -/

/-- A machine whose open port has a PAE that listens. -/
structure Listens (sm : EapolSm) : Prop extends Ok sm where
  limit : sm.authPae.reAuthMax = 2
  closed : sm.portEnabled = false ∨ sm.authPae.state = .held → sm.portStatus = .unauthorized

theorem Listens.not_alternates (h : sm.Listens) : ¬ sm.Alternates := by
  intro halternates
  have hopen : ¬ sm.portStatus = .unauthorized := by simp [halternates.authorized]
  rcases halternates.blocked with hoff | ⟨-, ⟨hheld, -⟩ | ⟨hforce, -⟩⟩
  · exact hopen (h.closed (.inl hoff))
  · exact hopen (h.closed (.inr hheld))
  · rcases hforce with hforce | hforce
    · exact h.unforced.1 hforce
    · exact h.unforced.2 hforce

theorem Listens.terminates (h : sm.Listens) : sm.Terminates := by
  have htwo : sm.authPae.reAuthMax.toNat = 2 := congrArg BitVec.toNat h.limit
  rw [terminates_iff (by omega) (by omega)]
  exact h.not_alternates

theorem Listens.authPaeStep_closed (h : sm.Listens)
    (hcause : sm.authPaeStep.portEnabled = false ∨ sm.authPaeStep.authPae.state = .held) :
    sm.authPaeStep.portStatus = .unauthorized := by
  rw [(authPaeStep_frame sm).portEnabled] at hcause
  cases hon : sm.portEnabled with
  | false =>
    have hstep : sm.authPaeStep = sm.authPaeInitialize := by simp [EapolSm.authPaeStep, hon]
    rw [hstep]
    exact h.closed (.inl hon)
  | true =>
    have hstep : sm.authPaeStep = sm.authPaeSwitch := by
      simp [EapolSm.authPaeStep, h.init_eq, hon, h.portControl_eq, h.portMode_eq]
    rw [hon, hstep] at hcause
    rw [hstep]
    have hheld := hcause.resolve_left (by simp)
    generalize hsm : sm.authPaeSwitch = sm' at hheld
    have hswitched : Switched sm sm' := hsm ▸ authPaeSwitch_switched sm
    cases hswitched with
    | stays => exact h.closed (.inr hheld)
    | disconnected =>
      obtain ⟨-, -, -, -, -, -, hclosed, -⟩ := authPaeDisconnected_fields sm
      exact hclosed
    | connecting => cases hheld
    | authenticating => cases hheld
    | authenticated => cases hheld
    | held => rfl
    | aborting => cases hheld
    | forceAuth => cases hheld
    | forceUnauth => rfl

/-- **Pass lemma**: the port stays closed while nobody listens. -/
theorem Listens.pass (h : sm.Listens) : sm.eapolSmPass.Listens := by
  obtain ⟨-, -, -, -, -, hrest⟩ := pass_eq h.init_eq
  refine { h.toOk.pass with limit := ?_, closed := ?_ }
  · rw [hrest.authPae, (authPaeStep_frame sm).reAuthMax, h.limit]
  · rw [hrest.portEnabled, hrest.authPae, hrest.portStatus]
    exact h.authPaeStep_closed

theorem Listens.eapolSmStep (n : Nat) (h : sm.Listens) : (EapolSm.eapolSmStep n sm).Listens := by
  induction n generalizing sm with
  | zero => exact h
  | succ n ih =>
    unfold EapolSm.eapolSmStep
    split
    · exact h.pass
    · exact ih h.pass

theorem Listens.raise (h : sm.Listens) (e : Event) : (sm.raise e).Listens := by
  refine { h.toOk.raise e with limit := ?_, closed := ?_ }
  · cases e <;> exact h.limit
  · cases e with
    | portEnable => exact fun hcause => h.closed (.inr (hcause.resolve_left (by simp [EapolSm.raise])))
    | _ => exact h.closed

end EapolSm

theorem eapolSmReset_listens (conf : RtapdConfig) : (eapolSmReset conf).Listens := by
  refine { eapolSmReset_ok conf with limit := ?_, closed := ?_ }
  · rw [eapolSmReset_eq]
    rfl
  · rw [eapolSmReset_eq]
    exact fun _ => rfl

theorem eapolSmAlloc_listens (conf : RtapdConfig) : (eapolSmAlloc conf).Listens :=
  (eapolSmReset_listens conf).eapolSmStep 2

theorem eapolRun_listens (conf : RtapdConfig) (es : List (Event × Nat)) :
    (eapolRun conf es).Listens :=
  runEvents_invariant es (fun _ e h => (h.raise e.1).eapolSmStep e.2) (eapolSmAlloc_listens conf)

/-- **The loop of `eapol_sm_step` ends.**  For every value of the record, with a limit of attempts
    that can be exceeded, it ends exactly if the timer does not alternate; and from `eapol_sm_alloc`
    on every call ends, whatever has happened before: the two calls of `eapol_sm_initialize`, and
    the one behind each event, with any periods the server and the configuration bring. -/
theorem eapol_sm_step_terminates :
    (∀ sm : EapolSm, 1 ≤ sm.authPae.reAuthMax.toNat → sm.authPae.reAuthMax.toNat < 2 ^ 32 - 1 →
      (sm.Terminates ↔ ¬ sm.Alternates)) ∧
    ∀ conf : RtapdConfig,
      EapolSm.Terminates { eapolSmZero conf with init := true } ∧
      (eapolSmReset conf).Terminates ∧
      ∀ (es : List (Event × Nat)) (e : Event), ((eapolRun conf es).raise e).Terminates := by
  refine ⟨fun _ hone hmax => EapolSm.terminates_iff hone hmax, fun conf => ⟨?_, ?_, ?_⟩⟩
  · exact EapolSm.terminates_of_init rfl
  · exact (eapolSmReset_listens conf).terminates
  · exact fun es e => ((eapolRun_listens conf es).raise e).terminates

/-- A record whose port is authorized and disabled, with a period of 0. -/
def strayed : EapolSm := { eapolSmZero ⟨60, true, 0⟩ with portStatus := .authorized }

theorem strayed_alternates : strayed.Alternates where
  init_eq := rfl
  portControl_eq := rfl
  enabled := rfl
  authorized := rfl
  period := rfl
  expired := .inr rfl
  blocked := .inl rfl

/-- A port that strays keeps the loop going; a success with a period of 0 does not. -/
theorem eapol_sm_step_terminates_strayed : ¬ strayed.Terminates ∧
      ((eapolRun ⟨0, true, 0⟩ [(.portEnable, 10), (.rxInitialRsp, 10)]).raise
        (.accessAccept (some 0) true none)).Terminates := by
  constructor
  · rw [eapol_sm_step_terminates.1 strayed (by decide) (by decide)]
    exact not_not.mpr strayed_alternates
  · exact (eapol_sm_step_terminates.2 _).2.2 _ _

/-- The loop does not end for every value of the record. -/
theorem not_terminates_all : ¬ ∀ sm : EapolSm, sm.Terminates := by
  intro hall
  refine (EapolSm.terminates_iff ?_ ?_).mp (hall strayed) strayed_alternates
  · decide
  · decide

end RalinkSdk.Dot1x
