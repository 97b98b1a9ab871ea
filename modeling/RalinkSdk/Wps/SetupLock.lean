import RalinkSdk.Lib.Run
import RalinkSdk.Wps.Agreement
import RalinkSdk.Wps.Registrar

/-!
# The lock against guessing the PIN

An access point that is the enrollee counts the failures of its registrars.  The third one locks
the setup for a minute.  Two timers of a minute each belong to the counter: one that is started
with the first failure and forgets it again, and one that ends the lock.

A timer is the time at which it is due.  The handlers of timers run when they are due; what else
happens at that time may come before or after them.

## Main results

- `setupLock_of_three_recent`: after three failures within a minute the setup is locked.
- `setupLock_lasts`: a lock lasts for a minute after the last failure that has set it.
- `enrollee_locked_no_m3`: while the setup is locked no M2 is answered with M3.

## Source

`common/wsc_v2.c`, `common/wsc.c`, `common/rtmp_init.c`.
-/

namespace RalinkSdk.Wps

open Lib Option List

/-! ## The counter and its timers -/

/-- The times of a minute, in milliseconds. -/
def minute : Nat := 60000

/-- `RTMPSetTimer`: a timer that is pending stays as it is. -/
def rtmpSetTimer (timer : Option Nat) (now value : Nat) : Option Nat :=
  if timer.isSome then timer else some (now + value)

/-- What `WSC_CTRL` keeps against guessing, and its two timers. -/
structure SetupLock where
  pinAttackCount : Byte
  bSetupLock : Bool
  wscSetupLockTimerRunning : Bool
  wscPinAttackCountCheckTimerRunning : Bool
  wscSetupLockTimer : Option Nat
  wscPinAttackCountCheckTimer : Option Nat
deriving DecidableEq

namespace SetupLock

/-- At the start nothing has failed. -/
def start : SetupLock := ⟨0, false, false, false, none, none⟩

def wscSetupLockTimeout (l : SetupLock) : SetupLock :=
  { l with bSetupLock := false, wscSetupLockTimerRunning := false, wscSetupLockTimer := none }

def wscPinAttackCountCheckTimeout (l : SetupLock) : SetupLock :=
  { l with
    pinAttackCount :=
      if l.pinAttackCount < 2 ∧ l.wscSetupLockTimerRunning = false then 0 else l.pinAttackCount
    wscPinAttackCountCheckTimerRunning := false
    wscPinAttackCountCheckTimer := none }

/-- The first failure starts the timer of the counter. -/
def startCheck (now : Nat) (l : SetupLock) : SetupLock :=
  if l.pinAttackCount = 0 then
    let timer := if l.wscPinAttackCountCheckTimerRunning then none else l.wscPinAttackCountCheckTimer
    { l with
      wscPinAttackCountCheckTimerRunning := true
      wscPinAttackCountCheckTimer := rtmpSetTimer timer now minute }
  else l

def lockSetup (now : Nat) (l : SetupLock) : SetupLock :=
  if 3 ≤ l.pinAttackCount then
    let timer := if l.wscSetupLockTimerRunning then none else l.wscSetupLockTimer
    { l with
      pinAttackCount := 0
      bSetupLock := true
      wscSetupLockTimerRunning := true
      wscSetupLockTimer := rtmpSetTimer timer now minute }
  else l

def wscCheckPinAttackCount (now : Nat) (l : SetupLock) : SetupLock :=
  let l := l.startCheck now
  { l with pinAttackCount := l.pinAttackCount + 1 }.lockSetup now

end SetupLock

/-! ## Runs in time -/

inductive LockEvent where
  | pinFailure
  | setupLockTimeout
  | pinAttackCountCheckTimeout
deriving DecidableEq

structure TimedLock where
  now : Nat
  lock : SetupLock

namespace TimedLock

/-- An event at its time. -/
def step (s : TimedLock) (e : Nat × LockEvent) : TimedLock where
  now := e.1
  lock :=
    match e.2 with
    | .pinFailure => s.lock.wscCheckPinAttackCount e.1
    | .setupLockTimeout => s.lock.wscSetupLockTimeout
    | .pinAttackCountCheckTimeout => s.lock.wscPinAttackCountCheckTimeout

/-- Time does not go back, no timer is overdue, and a timeout comes when its timer is due. -/
structure OnTime (s : TimedLock) (e : Nat × LockEvent) : Prop where
  now_le : s.now ≤ e.1
  setupLock : ∀ due ∈ s.lock.wscSetupLockTimer, e.1 ≤ due
  check : ∀ due ∈ s.lock.wscPinAttackCountCheckTimer, e.1 ≤ due
  setupLockTimeout : e.2 = .setupLockTimeout → s.lock.wscSetupLockTimer = some e.1
  checkTimeout : e.2 = .pinAttackCountCheckTimeout → s.lock.wscPinAttackCountCheckTimer = some e.1

def start : TimedLock := ⟨0, .start⟩

end TimedLock

/-- The times of the failures of a run. -/
def failures (es : List (Nat × LockEvent)) : List Nat :=
  (es.filter fun e => e.2 = .pinFailure).map (·.1)

/-- The failures of the minute before a time. -/
def recent (now : Nat) (fails : List Nat) : List Nat := fails.filter fun t => now < t + minute

/-! ## The counter against the failures -/

/-- The lock after the failures `fails`. -/
structure LockInv (s : TimedLock) (fails : List Nat) : Prop where
  past : ∀ t ∈ fails, t ≤ s.now
  count_lt : s.lock.pinAttackCount < 3
  checkRunning : s.lock.wscPinAttackCountCheckTimerRunning =
    s.lock.wscPinAttackCountCheckTimer.isSome
  lockRunning : s.lock.wscSetupLockTimerRunning = s.lock.wscSetupLockTimer.isSome
  locked : s.lock.bSetupLock = s.lock.wscSetupLockTimer.isSome
  /-- Without a lock all recent failures are in the counter. -/
  counted : s.lock.wscSetupLockTimer = none →
    (recent s.now fails).length ≤ s.lock.pinAttackCount.toNat
  /-- Those that a lock leaves behind are in the counter. -/
  countedAfter : ∀ due ∈ s.lock.wscSetupLockTimer,
    (recent due fails).length ≤ s.lock.pinAttackCount.toNat
  /-- The timer of the counter forgets only failures of more than a minute ago. -/
  forgets : ∀ due ∈ s.lock.wscPinAttackCountCheckTimer,
    s.lock.pinAttackCount < 2 → s.lock.wscSetupLockTimer = none → recent due fails = []
  forgetsOne : ∀ due ∈ s.lock.wscPinAttackCountCheckTimer,
    s.lock.pinAttackCount = 1 → recent due fails = []

/-! ### Recent failures -/

theorem recent_append (now : Nat) (fails fails' : List Nat) :
    recent now (fails ++ fails') = recent now fails ++ recent now fails' :=
  filter_append ..

theorem length_recent_le {now now' : Nat} (h : now ≤ now') (fails : List Nat) :
    (recent now' fails).length ≤ (recent now fails).length :=
  (monotone_filter_right fails fun _ ht =>
    decide_eq_true (lt_of_le_of_lt h (of_decide_eq_true ht))).length_le

variable {fails : List Nat}

theorem recent_eq_nil_of_le {now now' : Nat} (h : now ≤ now')
    (hnil : recent now fails = []) : recent now' fails = [] := by
  have hle := length_recent_le h fails
  rw [hnil, length_nil, Nat.le_zero] at hle
  exact length_eq_zero_iff.mp hle

theorem recent_minute_eq_nil {t : Nat} (hpast : ∀ f ∈ fails, f ≤ t) :
    recent (t + minute) fails = [] := by
  refine filter_eq_nil_iff.mpr fun f hf h => ?_
  have hlt := of_decide_eq_true h
  have hle := hpast f hf
  omega

theorem length_recent_singleton_le (now t : Nat) : (recent now [t]).length ≤ 1 :=
  length_filter_le ..

/-! ### One event -/

theorem count_cases {count : Byte} (h : count < 3) : count = 0 ∨ count = 1 ∨ count = 2 := by
  revert count
  decide

theorem LockInv.start : LockInv .start [] where
  past := by simp
  count_lt := by decide
  checkRunning := rfl
  lockRunning := rfl
  locked := rfl
  counted := by simp [recent]
  countedAfter := by simp [recent]
  forgets := by simp [recent]
  forgetsOne := by simp [recent]

section

variable {s : TimedLock} {fails : List Nat} {t : Nat}

theorem rtmpSetTimer_anew {running : Bool} {timer : Option Nat} (h : running = timer.isSome)
    (now value : Nat) : rtmpSetTimer (if running then none else timer) now value =
      some (now + value) := by
  rw [h]
  cases timer <;> rfl

theorem wscCheckPinAttackCount_zero {l : SetupLock} (hcount : l.pinAttackCount = 0)
    (hcheck : l.wscPinAttackCountCheckTimerRunning = l.wscPinAttackCountCheckTimer.isSome) :
    l.wscCheckPinAttackCount t =
      { l with
        pinAttackCount := 1
        wscPinAttackCountCheckTimerRunning := true
        wscPinAttackCountCheckTimer := some (t + minute) } := by
  have hstart : l.startCheck t =
      { l with
        wscPinAttackCountCheckTimerRunning := true
        wscPinAttackCountCheckTimer := some (t + minute) } := by
    rw [SetupLock.startCheck, if_pos hcount]
    dsimp only
    rw [rtmpSetTimer_anew hcheck]
  rw [SetupLock.wscCheckPinAttackCount, hstart]
  dsimp only
  rw [hcount]
  rfl

theorem wscCheckPinAttackCount_one {l : SetupLock} (hcount : l.pinAttackCount = 1) :
    l.wscCheckPinAttackCount t = { l with pinAttackCount := 2 } := by
  have hstart : l.startCheck t = l := if_neg (by rw [hcount]; decide)
  rw [SetupLock.wscCheckPinAttackCount, hstart, hcount]
  rfl

theorem wscCheckPinAttackCount_two {l : SetupLock} (hcount : l.pinAttackCount = 2)
    (hlock : l.wscSetupLockTimerRunning = l.wscSetupLockTimer.isSome) :
    l.wscCheckPinAttackCount t =
      { l with
        pinAttackCount := 0
        bSetupLock := true
        wscSetupLockTimerRunning := true
        wscSetupLockTimer := some (t + minute) } := by
  have hstart : l.startCheck t = l := if_neg (by rw [hcount]; decide)
  rw [SetupLock.wscCheckPinAttackCount, hstart, hcount, SetupLock.lockSetup,
    if_pos (by decide : (3 : Byte) ≤ 2 + 1)]
  dsimp only
  rw [rtmpSetTimer_anew hlock]

theorem LockInv.pinFailure (h : LockInv s fails) (hon : s.OnTime (t, .pinFailure)) :
    LockInv (s.step (t, .pinFailure)) (fails ++ [t]) := by
  have hnow : s.now ≤ t := hon.now_le
  have hpast : ∀ f ∈ fails ++ [t], f ≤ t := by
    intro f hf
    rcases mem_append.mp hf with hf | hf
    · exact (h.past f hf).trans hnow
    · exact (mem_singleton.mp hf).le
  have hnone := recent_minute_eq_nil hpast
  -- one more failure, one more in the counter
  have hgrow : ∀ now' now, now ≤ now' → (recent now fails).length ≤ s.lock.pinAttackCount.toNat →
      (recent now' (fails ++ [t])).length ≤ s.lock.pinAttackCount.toNat + 1 := by
    intro now' now hle hcount
    rw [recent_append, length_append]
    have hold := length_recent_le hle fails
    have hnew := length_recent_singleton_le now' t
    omega
  unfold TimedLock.step
  dsimp only
  rcases count_cases h.count_lt with hc | hc | hc
  · -- the first failure starts the timer of the counter
    rw [hc] at hgrow
    rw [wscCheckPinAttackCount_zero hc h.checkRunning]
    refine ⟨hpast, (by decide : (1 : Byte) < 3), rfl, h.lockRunning, h.locked, fun hfree => ?_,
      fun due hdue => ?_, fun due hdue _ _ => ?_, fun due hdue _ => ?_⟩
    · exact hgrow t s.now hnow (hc ▸ h.counted hfree)
    · exact hgrow due due (le_refl _) (hc ▸ h.countedAfter due hdue)
    · rwa [← some.inj hdue]
    · rwa [← some.inj hdue]
  · rw [hc] at hgrow
    rw [wscCheckPinAttackCount_one hc]
    refine ⟨hpast, (by decide : (2 : Byte) < 3), h.checkRunning, h.lockRunning, h.locked,
      fun hfree => ?_, fun due hdue => ?_,
      fun _ _ hcount _ => absurd hcount (by decide : ¬ (2 : Byte) < 2),
      fun _ _ hcount => absurd hcount (by decide : ¬ (2 : Byte) = 1)⟩
    · exact hgrow t s.now hnow (hc ▸ h.counted hfree)
    · exact hgrow due due (le_refl _) (hc ▸ h.countedAfter due hdue)
  · -- the third one locks the setup
    rw [wscCheckPinAttackCount_two hc h.lockRunning]
    refine ⟨hpast, (by decide : (0 : Byte) < 3), h.checkRunning, rfl, rfl,
      fun hfree => absurd hfree (by simp), fun due hdue => ?_,
      fun _ _ _ hfree => absurd hfree (by simp),
      fun _ _ hcount => absurd hcount (by decide : ¬ (0 : Byte) = 1)⟩
    rw [← some.inj hdue, hnone]
    exact Nat.zero_le _

theorem LockInv.setupLockTimeout (h : LockInv s fails) (hon : s.OnTime (t, .setupLockTimeout)) :
    LockInv (s.step (t, .setupLockTimeout)) fails := by
  have hnow : s.now ≤ t := hon.now_le
  have hdue : s.lock.wscSetupLockTimer = some t := hon.setupLockTimeout rfl
  have hafter := h.countedAfter t hdue
  refine ⟨fun f hf => (h.past f hf).trans hnow, h.count_lt, h.checkRunning, rfl, rfl,
    fun _ => hafter, fun _ hdue' => absurd hdue' (by simp [TimedLock.step, SetupLock.wscSetupLockTimeout]),
    fun due hcheck hcount _ => ?_, h.forgetsOne⟩
  rcases count_cases h.count_lt with hc | hc | hc
  · -- nothing has failed since the lock began
    rw [hc] at hafter
    have hnil : recent t fails = [] := length_eq_zero_iff.mp (Nat.le_zero.mp hafter)
    exact recent_eq_nil_of_le (hon.check due hcheck) hnil
  · exact h.forgetsOne due hcheck hc
  · exact absurd hcount (by simp [TimedLock.step, SetupLock.wscSetupLockTimeout, hc])

theorem LockInv.checkTimeout (h : LockInv s fails)
    (hon : s.OnTime (t, .pinAttackCountCheckTimeout)) :
    LockInv (s.step (t, .pinAttackCountCheckTimeout)) fails := by
  have hnow : s.now ≤ t := hon.now_le
  have hdue : s.lock.wscPinAttackCountCheckTimer = some t := hon.checkTimeout rfl
  have hpast : ∀ f ∈ fails, f ≤ t := fun f hf => (h.past f hf).trans hnow
  unfold TimedLock.step SetupLock.wscPinAttackCountCheckTimeout
  dsimp only
  by_cases hreset : s.lock.pinAttackCount < 2 ∧ s.lock.wscSetupLockTimerRunning = false
  · rw [if_pos hreset]
    have hfree : s.lock.wscSetupLockTimer = none := by
      have hrunning := h.lockRunning
      rw [hreset.2] at hrunning
      exact isNone_iff_eq_none.mp (by simpa using hrunning.symm)
    refine ⟨hpast, (by decide : (0 : Byte) < 3), rfl, h.lockRunning, h.locked, fun _ => ?_,
      fun due hdue' => ?_,
      fun _ hcheck => absurd hcheck (by simp), fun _ hcheck => absurd hcheck (by simp)⟩
    · rw [h.forgets t hdue hreset.1 hfree]
      exact Nat.zero_le _
    · dsimp only at hdue'
      rw [hfree] at hdue'
      cases hdue'
  · rw [if_neg hreset]
    refine ⟨hpast, h.count_lt, rfl, h.lockRunning, h.locked, fun hfree => ?_, h.countedAfter,
      fun _ hcheck => absurd hcheck (by simp), fun _ hcheck => absurd hcheck (by simp)⟩
    exact (length_recent_le hnow fails).trans (h.counted hfree)

theorem LockInv.step {e : Nat × LockEvent} (h : LockInv s fails) (hon : s.OnTime e) :
    LockInv (s.step e) (fails ++ failures [e]) := by
  obtain ⟨t, e⟩ := e
  cases e with
  | pinFailure => exact h.pinFailure hon
  | setupLockTimeout =>
    rw [show failures [(t, .setupLockTimeout)] = [] from rfl, append_nil]
    exact h.setupLockTimeout hon
  | pinAttackCountCheckTimeout =>
    rw [show failures [(t, .pinAttackCountCheckTimeout)] = [] from rfl, append_nil]
    exact h.checkTimeout hon

end

/-! ## Runs -/

theorem failures_append (es es' : List (Nat × LockEvent)) :
    failures (es ++ es') = failures es ++ failures es' := by
  simp [failures]

variable {s : TimedLock} {es : List (Nat × LockEvent)}

theorem LockInv.run (h : LockInv s fails) (hrun : Along TimedLock.step TimedLock.OnTime s es) :
    LockInv (runEvents TimedLock.step s es) (fails ++ failures es) := by
  induction es generalizing s fails with
  | nil => simpa [failures] using h
  | cons e es ih =>
    obtain ⟨hon, hrest⟩ := hrun
    have hnext := ih (h.step hon) hrest
    rwa [append_assoc, ← failures_append] at hnext

theorem setupLock_of_three_recent (hrun : Along TimedLock.step TimedLock.OnTime .start es)
    (hthree : 3 ≤ (recent (runEvents TimedLock.step .start es).now (failures es)).length) :
    (runEvents TimedLock.step .start es).lock.bSetupLock = true := by
  have h := LockInv.start.run hrun
  rw [nil_append] at h
  rw [h.locked, isSome_iff_ne_none]
  intro hfree
  have hcounted := h.counted hfree
  have hlt : (runEvents TimedLock.step .start es).lock.pinAttackCount.toNat < 3 := h.count_lt
  omega

/-- The setup is locked for a minute from `t`. -/
structure LockedFrom (t : Nat) (s : TimedLock) : Prop where
  locked : s.lock.bSetupLock = true
  le_now : t ≤ s.now
  due : ∃ due, s.lock.wscSetupLockTimer = some due ∧ t + minute ≤ due

theorem LockedFrom.step {t : Nat} {e : Nat × LockEvent}
    (h : LockedFrom t s) (hinv : LockInv s fails) (hon : s.OnTime e) (hbefore : e.1 < t + minute) :
    LockedFrom t (s.step e) := by
  obtain ⟨hlock, hle, due, hdue, hlast⟩ := h
  obtain ⟨now, e⟩ := e
  have hnow : t ≤ now := hle.trans hon.now_le
  cases e with
  | pinFailure =>
    unfold TimedLock.step
    dsimp only
    rcases count_cases hinv.count_lt with hc | hc | hc
    · rw [wscCheckPinAttackCount_zero hc hinv.checkRunning]
      exact ⟨hlock, hnow, due, hdue, hlast⟩
    · rw [wscCheckPinAttackCount_one hc]
      exact ⟨hlock, hnow, due, hdue, hlast⟩
    · rw [wscCheckPinAttackCount_two hc hinv.lockRunning]
      exact ⟨rfl, hnow, now + minute, rfl, Nat.add_le_add_right hnow minute⟩
  | setupLockTimeout =>
    have hend : s.lock.wscSetupLockTimer = some now := hon.setupLockTimeout rfl
    rw [hdue] at hend
    cases hend
    exact absurd hbefore (Nat.not_lt.mpr hlast)
  | pinAttackCountCheckTimeout => exact ⟨hlock, hnow, due, hdue, hlast⟩

theorem now_le_run (hrun : Along TimedLock.step TimedLock.OnTime s es) :
    s.now ≤ (runEvents TimedLock.step s es).now := by
  induction es generalizing s with
  | nil => exact le_refl _
  | cons e es ih => exact hrun.1.now_le.trans (ih hrun.2)

theorem LockedFrom.run {t : Nat} (h : LockedFrom t s) (hinv : LockInv s fails)
    (hrun : Along TimedLock.step TimedLock.OnTime s es)
    (hbefore : (runEvents TimedLock.step s es).now < t + minute) :
    LockedFrom t (runEvents TimedLock.step s es) := by
  induction es generalizing s fails with
  | nil => exact h
  | cons e es ih =>
    obtain ⟨hon, hrest⟩ := hrun
    have he : e.1 < t + minute := lt_of_le_of_lt (now_le_run hrest) hbefore
    exact ih (h.step hinv hon he) (hinv.step hon) hrest hbefore

/-- A failure in this state is the third one, which sets the lock. -/
def SetsLock (s : TimedLock) : Prop := 3 ≤ s.lock.pinAttackCount + 1

theorem setupLock_lasts {es es' : List (Nat × LockEvent)} {t : Nat}
    (hrun : Along TimedLock.step TimedLock.OnTime .start (es ++ (t, .pinFailure) :: es'))
    (hsets : SetsLock (runEvents TimedLock.step .start es))
    (hbefore : (runEvents TimedLock.step .start (es ++ (t, .pinFailure) :: es')).now < t + minute) :
    (runEvents TimedLock.step .start (es ++ (t, .pinFailure) :: es')).lock.bSetupLock = true := by
  obtain ⟨hpre, hon, hpost⟩ := along_append.mp hrun
  have hinv := LockInv.start.run hpre
  rw [runEvents_append] at hbefore ⊢
  set s := runEvents TimedLock.step .start es
  have hcount : s.lock.pinAttackCount = 2 := by
    rcases count_cases hinv.count_lt with hc | hc | hc
    · exact absurd hsets (by rw [SetsLock, hc]; decide)
    · exact absurd hsets (by rw [SetsLock, hc]; decide)
    · exact hc
  have hlocked : LockedFrom t (s.step (t, .pinFailure)) := by
    unfold TimedLock.step
    dsimp only
    rw [wscCheckPinAttackCount_two hcount hinv.lockRunning]
    exact ⟨rfl, le_refl t, t + minute, rfl, le_refl _⟩
  exact (hlocked.run (hinv.step hon) hpost hbefore).locked

/-! ## The access point as enrollee -/

variable (crypt : CryptFns)

/-- The messages of a registrar that the lock is about. -/
inductive EnrolleeMsg where
  | m2
  | m4
  | m6
deriving DecidableEq

structure EnrolleeCall where
  msgType : EnrolleeMsg
  msg : List Byte
  /-- The message comes over UPnP. -/
  bUpnpMsg : Bool
  /-- `WscActionMode` is `WSC_ENROLLEE`. -/
  isEnrollee : Bool
  /-- The sender is a station of the access point. -/
  hasEntry : Bool
  /-- The station that the session is with has sent its identity. -/
  gotEapRspId : Bool
  /-- There is memory for the answer. -/
  gotMem : Bool
  entryAddr : Buf 6
  iv : Buf 16
  cfg : WscProfile
  now : Nat

inductive EnrolleeAnswer where
  | nothing
  | m3 (msg : List Attr)
  | m5 (msg : List Attr)
  | m7 (msg : List Attr)
  | nack (msg : List Attr)

/-- The enrollee: its control block, and whether UPnP is in progress. -/
structure Enrollee where
  ctrl : WscCtrl
  lock : SetupLock
  bUpnpInProgress : Bool

/-- The check before a message is looked at. -/
def earlyCheck (x : EnrolleeCall) (s : Enrollee) : Bool :=
  x.isEnrollee && ! (s.ctrl.wscUseUpnp && x.hasEntry) && ! (! s.ctrl.wscUseUpnp && ! x.hasEntry)

/-- A message over UPnP belongs to a session over UPnP, which M2 may begin. -/
def enrolleeUpnp (x : EnrolleeCall) (s : Enrollee) : Option Enrollee :=
  if x.bUpnpMsg then
    if x.msgType = .m2 ∧ ¬ s.bUpnpInProgress then
      if s.ctrl.opMode = .apMode ∧ x.gotEapRspId then none
      else
        some { s with
          ctrl := { s.ctrl with bUpnpMsgTimerRunning := true }
          bUpnpInProgress := true }
    else if s.bUpnpInProgress then some s else none
  else some s

/-- M2 in `WSC_STATE_SENT_M1` or `WSC_STATE_RX_M2D`. -/
def onM2 (x : EnrolleeCall) (c : WscCtrl) (l : SetupLock) :
    Option (WscError × EnrolleeAnswer × WscCtrl × SetupLock) := do
  let curOpMode := c.opMode
  let c := c.onPeer fun d => { d with macAddr := x.entryAddr }
  let (rv, c) ← processMessageM2 crypt x.msg c
  if rv ≠ .noError then some (rv, .nothing, c, l)
  else if curOpMode = .apMode ∧ l.bSetupLock then some (.setupLocked, .nothing, c, l)
  else
    let (msg, c) ← buildMessageM3 crypt c
    some (.noError, .m3 msg, c.setState .waitM4, l)

def countFailure (curOpMode : OpMode) (now : Nat) (l : SetupLock) : SetupLock :=
  if curOpMode = .apMode then l.wscCheckPinAttackCount now else l

def onM4 (x : EnrolleeCall) (c : WscCtrl) (l : SetupLock) :
    Option (WscError × EnrolleeAnswer × WscCtrl × SetupLock) := do
  let curOpMode := c.opMode
  let (rv, c) ← processMessageM4 crypt x.msg c
  if rv ≠ .noError then some (rv, .nothing, c, countFailure curOpMode x.now l)
  else
    let (msg, c) ← buildMessageM5 crypt x.iv c
    some (.noError, .m5 msg, c.setState .waitM6, l)

def onM6 (x : EnrolleeCall) (c : WscCtrl) (l : SetupLock) :
    Option (WscError × EnrolleeAnswer × WscCtrl × SetupLock) := do
  let curOpMode := c.opMode
  let (rv, c) ← processMessageM6 crypt x.msg c
  if rv ≠ .noError then some (rv, .nothing, c, countFailure curOpMode x.now l)
  else
    let (msg, c) ← buildMessageM7 crypt x.iv x.cfg c
    some (.noError, .m7 msg, c.setState .waitM8, l)

/-- Only the state says which message is taken; the others are passed over. -/
def enrolleeSwitch (x : EnrolleeCall) (c : WscCtrl) (l : SetupLock) :
    Option (WscError × EnrolleeAnswer × WscCtrl × SetupLock) :=
  if x.msgType = .m2 ∧ (c.wscState = .sentM1 ∨ c.wscState = .rxM2d) then onM2 crypt x c l
  else if x.msgType = .m4 ∧ c.wscState = .waitM4 then onM4 crypt x c l
  else if x.msgType = .m6 ∧ c.wscState = .waitM6 then onM6 crypt x c l
  else some (.noError, .nothing, c, l)

/-- A failure: the session ends, and a lock is what is reported. -/
def enrolleeFail (x : EnrolleeCall) (curOpMode : OpMode) (rv : WscError) (s : Enrollee) :
    Option (EnrolleeAnswer × Enrollee) := do
  let rv := if curOpMode = .apMode ∧ s.lock.bSetupLock then .setupLocked else rv
  let s := { s with ctrl := s.ctrl.reportError rv }
  let s := if x.bUpnpMsg then
      { s with
        ctrl := { s.ctrl with bUpnpMsgTimerRunning := false }
        bUpnpInProgress := false }
    else s
  let answer ← if x.bUpnpMsg then some .nothing else do some (.nack (← buildMessageNACK s.ctrl))
  let state := if curOpMode = .apMode then .off else .waitDisconn
  some (answer, { s with ctrl := s.ctrl.setState state })

/-- `WscEapEnrolleeAction`, up to the answer to M2, M4 and M6. -/
def wscEapEnrolleeAction (x : EnrolleeCall) (s : Enrollee) : Option (EnrolleeAnswer × Enrollee) :=
  let curOpMode := s.ctrl.opMode
  if curOpMode = .apMode ∧ ¬ earlyCheck x s then some (.nothing, s)
  else
    match enrolleeUpnp x s with
    | none => some (.nothing, s)
    | some s =>
      if x.gotMem then
        (enrolleeSwitch crypt x s.ctrl s.lock).bind fun r =>
          let s := { s with ctrl := r.2.2.1, lock := r.2.2.2 }
          if r.1 ≠ .noError then enrolleeFail x curOpMode r.1 s else some (r.2.1, s)
      else some (.nothing, s)

def EnrolleeAnswer.IsM3 : EnrolleeAnswer → Prop
  | .m3 _ => True
  | _ => False

variable {crypt}

section

variable {x : EnrolleeCall} {c : WscCtrl} {l : SetupLock}
  {r : WscError × EnrolleeAnswer × WscCtrl × SetupLock}

theorem onM2_locked (hap : c.opMode = .apMode) (hlock : l.bSetupLock = true)
    (h : onM2 crypt x c l = some r) : ¬ r.2.1.IsM3 := by
  unfold onM2 at h
  obtain ⟨⟨rv, c'⟩, -, h⟩ := bind_eq_some_iff.mp h
  dsimp only at h
  split at h
  · cases h
    exact id
  · rw [if_pos ⟨hap, hlock⟩] at h
    cases h
    exact id

theorem onM4_not_m3 (h : onM4 crypt x c l = some r) : ¬ r.2.1.IsM3 := by
  unfold onM4 at h
  obtain ⟨⟨rv, c'⟩, -, h⟩ := bind_eq_some_iff.mp h
  dsimp only at h
  split at h
  · cases h
    exact id
  · obtain ⟨⟨msg, c''⟩, -, h⟩ := bind_eq_some_iff.mp h
    cases h
    exact id

theorem onM6_not_m3 (h : onM6 crypt x c l = some r) : ¬ r.2.1.IsM3 := by
  unfold onM6 at h
  obtain ⟨⟨rv, c'⟩, -, h⟩ := bind_eq_some_iff.mp h
  dsimp only at h
  split at h
  · cases h
    exact id
  · obtain ⟨⟨msg, c''⟩, -, h⟩ := bind_eq_some_iff.mp h
    cases h
    exact id

theorem enrolleeSwitch_locked (hap : c.opMode = .apMode) (hlock : l.bSetupLock = true)
    (h : enrolleeSwitch crypt x c l = some r) : ¬ r.2.1.IsM3 := by
  unfold enrolleeSwitch at h
  split at h
  · exact onM2_locked hap hlock h
  split at h
  · exact onM4_not_m3 h
  split at h
  · exact onM6_not_m3 h
  · cases h
    exact id

theorem enrolleeFail_not_m3 {curOpMode : OpMode} {rv : WscError} {s : Enrollee}
    {a : EnrolleeAnswer × Enrollee} (h : enrolleeFail x curOpMode rv s = some a) : ¬ a.1.IsM3 := by
  unfold enrolleeFail at h
  dsimp only at h
  split at h
  · cases h
    exact id
  · obtain ⟨answer, hanswer, h⟩ := bind_eq_some_iff.mp h
    obtain ⟨msg, -, hmsg⟩ := bind_eq_some_iff.mp hanswer
    cases hmsg
    cases h
    exact id

theorem enrolleeUpnp_eq_some {s s' : Enrollee} (h : enrolleeUpnp x s = some s') :
    s'.lock = s.lock ∧ s'.ctrl.opMode = s.ctrl.opMode := by
  unfold enrolleeUpnp at h
  split at h
  · split at h
    · split at h
      · cases h
      · cases h
        exact ⟨rfl, rfl⟩
    · split at h
      · cases h
        exact ⟨rfl, rfl⟩
      · cases h
  · cases h
    exact ⟨rfl, rfl⟩

theorem enrollee_locked_no_m3 {s s' : Enrollee} {answer : EnrolleeAnswer}
    (hap : s.ctrl.opMode = .apMode) (hlock : s.lock.bSetupLock = true)
    (h : wscEapEnrolleeAction crypt x s = some (answer, s')) : ¬ answer.IsM3 := by
  unfold wscEapEnrolleeAction at h
  dsimp only at h
  split at h
  · cases h
    exact id
  · split at h
    · cases h
      exact id
    next s₁ hupnp =>
      obtain ⟨hl, hmode⟩ := enrolleeUpnp_eq_some hupnp
      split at h
      · obtain ⟨r, hr, h⟩ := bind_eq_some_iff.mp h
        have hno := enrolleeSwitch_locked (hmode.trans hap) (hl ▸ hlock) hr
        split at h
        · exact enrolleeFail_not_m3 h
        · cases h
          exact hno
      · cases h
        exact id

theorem enrolleeSwitch_lock (h : enrolleeSwitch crypt x c l = some r) :
    r.2.2.2 = l ∨ r.2.2.2 = l.wscCheckPinAttackCount x.now := by
  have hcount : ∀ mode, countFailure mode x.now l = l ∨
      countFailure mode x.now l = l.wscCheckPinAttackCount x.now := by
    intro mode
    unfold countFailure
    split
    · exact .inr rfl
    · exact .inl rfl
  unfold enrolleeSwitch at h
  split at h
  · obtain ⟨⟨rv, c'⟩, -, h⟩ := bind_eq_some_iff.mp h
    dsimp only at h
    split at h
    · cases h
      exact .inl rfl
    split at h
    · cases h
      exact .inl rfl
    · obtain ⟨a, -, h⟩ := bind_eq_some_iff.mp h
      cases h
      exact .inl rfl
  split at h
  · obtain ⟨⟨rv, c'⟩, -, h⟩ := bind_eq_some_iff.mp h
    dsimp only at h
    split at h
    · cases h
      exact hcount _
    · obtain ⟨a, -, h⟩ := bind_eq_some_iff.mp h
      cases h
      exact .inl rfl
  split at h
  · obtain ⟨⟨rv, c'⟩, -, h⟩ := bind_eq_some_iff.mp h
    dsimp only at h
    split at h
    · cases h
      exact hcount _
    · obtain ⟨a, -, h⟩ := bind_eq_some_iff.mp h
      cases h
      exact .inl rfl
  · cases h
    exact .inl rfl

theorem enrolleeFail_lock {curOpMode : OpMode} {rv : WscError} {s : Enrollee}
    {a : EnrolleeAnswer × Enrollee} (h : enrolleeFail x curOpMode rv s = some a) :
    a.2.lock = s.lock := by
  unfold enrolleeFail at h
  dsimp only at h
  split at h
  · cases h
    rfl
  · obtain ⟨answer, -, h⟩ := bind_eq_some_iff.mp h
    cases h
    rfl

theorem wscEapEnrolleeAction_lock {s s' : Enrollee} {answer : EnrolleeAnswer}
    (h : wscEapEnrolleeAction crypt x s = some (answer, s')) :
    s'.lock = s.lock ∨ s'.lock = s.lock.wscCheckPinAttackCount x.now := by
  unfold wscEapEnrolleeAction at h
  dsimp only at h
  split at h
  · cases h
    exact .inl rfl
  · split at h
    · cases h
      exact .inl rfl
    next s₁ hupnp =>
      have hl := (enrolleeUpnp_eq_some hupnp).1
      split at h
      · obtain ⟨r, hr, h⟩ := bind_eq_some_iff.mp h
        have hlock := enrolleeSwitch_lock hr
        rw [hl] at hlock
        split at h
        · rw [enrolleeFail_lock h]
          exact hlock
        · cases h
          exact hlock
      · cases h
        exact .inl hl

end

/-- **Guessing is limited**: in every run of failures and timeouts, three failures within a minute
    lock the setup, a lock lasts for a minute after the last failure that has set it, and while it
    is set no M2 is answered with M3. -/
theorem setupLock_limits_guessing (crypt : CryptFns) (es : List (Nat × LockEvent))
    (hrun : Along TimedLock.step TimedLock.OnTime .start es) :
    let s := runEvents TimedLock.step .start es
    (3 ≤ (recent s.now (failures es)).length → s.lock.bSetupLock = true) ∧
    (∀ es₁ t es₂, es = es₁ ++ (t, .pinFailure) :: es₂ →
      SetsLock (runEvents TimedLock.step .start es₁) → s.now < t + minute →
      s.lock.bSetupLock = true) ∧
    (s.lock.bSetupLock = true → ∀ (x : EnrolleeCall) (c : WscCtrl) (upnp : Bool)
      (answer : EnrolleeAnswer) (s' : Enrollee), c.opMode = .apMode →
      wscEapEnrolleeAction crypt x ⟨c, s.lock, upnp⟩ = some (answer, s') → ¬ answer.IsM3) := by
  refine ⟨setupLock_of_three_recent hrun, ?_, ?_⟩
  · rintro es₁ t es₂ rfl hsets hbefore
    exact setupLock_lasts hrun hsets hbefore
  · intro hlock x c upnp answer s' hap h
    exact enrollee_locked_no_m3 hap hlock h

theorem setupLock_limits_guessing_three : (runEvents TimedLock.step .start
      [(5, .pinFailure), (70, .pinFailure), (900, .pinFailure)]).lock.bSetupLock = true :=
  (setupLock_limits_guessing xorCrypt [(5, .pinFailure), (70, .pinFailure), (900, .pinFailure)]
    ⟨⟨by decide, by decide, by decide, by decide, by decide⟩,
      ⟨by decide, by decide, by decide, by decide, by decide⟩,
      ⟨by decide, by decide, by decide, by decide, by decide⟩, trivial⟩).1 (by decide)

end RalinkSdk.Wps
