import RalinkSdk.Dot1x.EapolSm

/-!
# Who opened the port

An attempt to authenticate starts when the PAE enters `AUTHENTICATING`.  The port may be
opened only by a success that the server reports for this attempt: after the backend has
entered `RESPONSE`, where the request goes to the server, and while it is still there.

The flags that carry the news between the machines are set at any moment and cleared on
some entries only.  What keeps a stale one harmless is an invariant about the states: outside
`AUTHENTICATING` the backend never waits for the server, so every `RESPONSE` belongs to the
attempt under way, and its entry clears `aSuccess`.
-/

namespace RalinkSdk.Dot1x

open Lib List

/-! ## Reading the log -/

/-- The attempt under way: nothing but the latest entry into `AUTHENTICATING`. -/
def Started (log : List Act) : Prop :=
  ∃ late before, log = late ++ .authPae .authenticating :: before ∧
    Act.authPae .authenticating ∉ late

/-- Since the latest entry into `AUTHENTICATING` the backend has entered `RESPONSE`, and it
    has entered no state after it. -/
def Asked (log : List Act) : Prop :=
  ∃ late before, log = late ++ .beAuth .response :: before ∧ Started before ∧
    Act.authPae .authenticating ∉ late ∧ ∀ s, Act.beAuth s ∉ late

/-- Since the latest entry into `AUTHENTICATING` a success was raised, at a moment when the
    backend was in `RESPONSE`. -/
def Answered (log : List Act) : Prop :=
  ∃ late before, log = late ++ .raised .aSuccess :: before ∧ Asked before ∧
    Act.authPae .authenticating ∉ late

/-- **Freshness**: every entry into `AUTHENTICATED` comes after a success of its own
    attempt, and the port is opened nowhere else. -/
def Fresh (log : List Act) : Prop :=
  ∀ late before,
    (log = late ++ .authPae .authenticated :: before → Answered before) ∧
    (log = late ++ .setPortAuthorized :: before →
      ∃ earlier, before = .authPae .authenticated :: earlier)

section

variable {log : List Act} {a : Act}

theorem Started.cons (h : Started log) (ha : a ≠ .authPae .authenticating) :
    Started (a :: log) := by
  obtain ⟨late, before, rfl, hlate⟩ := h
  refine ⟨a :: late, before, rfl, ?_⟩
  simp only [mem_cons, not_or]
  exact ⟨ha.symm, hlate⟩

theorem Asked.cons (h : Asked log) (ha : a ≠ .authPae .authenticating)
    (hbe : ∀ s, a ≠ .beAuth s) : Asked (a :: log) := by
  obtain ⟨late, before, rfl, hstart, hlate, hnone⟩ := h
  refine ⟨a :: late, before, rfl, hstart, ?_, fun s => ?_⟩
  · simp only [mem_cons, not_or]
    exact ⟨ha.symm, hlate⟩
  · simp only [mem_cons, not_or]
    exact ⟨(hbe s).symm, hnone s⟩

theorem Answered.cons (h : Answered log) (ha : a ≠ .authPae .authenticating) :
    Answered (a :: log) := by
  obtain ⟨late, before, rfl, hasked, hlate⟩ := h
  refine ⟨a :: late, before, rfl, hasked, ?_⟩
  simp only [mem_cons, not_or]
  exact ⟨ha.symm, hlate⟩

theorem Started.ask (h : Started log) : Asked (.beAuth .response :: log) :=
  ⟨[], log, rfl, h, by simp, by simp⟩

theorem Asked.answer (h : Asked log) : Answered (.raised .aSuccess :: log) :=
  ⟨[], log, rfl, h, by simp⟩

theorem started_enter : Started (.authPae .authenticating :: log) :=
  ⟨[], log, rfl, by simp⟩

theorem Fresh.cons (h : Fresh log) (hent : a = .authPae .authenticated → Answered log)
    (hset : a = .setPortAuthorized → ∃ earlier, log = .authPae .authenticated :: earlier) :
    Fresh (a :: log) := by
  intro late before
  cases late with
  | nil =>
    refine ⟨fun heq => ?_, fun heq => ?_⟩
    · obtain ⟨rfl, rfl⟩ := List.cons.inj heq
      exact hent rfl
    · obtain ⟨rfl, rfl⟩ := List.cons.inj heq
      exact hset rfl
  | cons b late =>
    refine ⟨fun heq => ?_, fun heq => ?_⟩
    · exact (h late before).1 (List.cons.inj heq).2
    · exact (h late before).2 (List.cons.inj heq).2

end

/-! ## The invariant -/

namespace EapolSm

/-- What holds of a machine between the steps of a pass. -/
structure Core (sm : EapolSm) : Prop where
  init_eq : sm.init = false
  portControl_eq : sm.portControl = .auto
  portMode_eq : sm.authPae.portMode = .auto
  portValid_eq : sm.portValid = true
  disabled : sm.portEnabled = false → sm.authPae.state = .init
  unforced : sm.authPae.state ≠ .forceAuth ∧ sm.authPae.state ≠ .forceUnauth
  /-- The backend waits for nobody outside an attempt. -/
  quiet : sm.authPae.state ≠ .authenticating → sm.authAbort = false →
    sm.beAuth.state ≠ .request ∧ sm.beAuth.state ≠ .response ∧
      (sm.beAuth.state = .idle → sm.authStart = false)
  started : sm.authPae.state = .authenticating → Started sm.log
  asked : sm.authPae.state = .authenticating → sm.beAuth.state = .response → Asked sm.log
  answered : sm.authPae.state = .authenticating → sm.beAuth.state = .response →
    sm.beAuth.aSuccess = true → Answered sm.log
  fresh : Fresh sm.log
  opened : sm.portStatus = .authorized → .setPortAuthorized ∈ sm.log

/-- After the step of the PAE: it has acted on the verdicts, and `authAbort` is set only if
    it has just given up. -/
structure Near (sm : EapolSm) : Prop extends Core sm where
  giveUp : sm.authAbort = true → sm.authPae.state = .aborting
  unsettled : sm.authPae.state = .authenticating → sm.authSuccess = false ∧ sm.authFail = false

/-- **The invariant** of a machine between passes: a verdict on the attempt under way is
    the one the backend has just given. -/
structure Ok (sm : EapolSm) : Prop extends Core sm where
  authAbort_eq : sm.authAbort = false
  success : sm.authPae.state = .authenticating → sm.authSuccess = true →
    sm.beAuth.state = .success ∧ Answered sm.log
  failed : sm.authPae.state = .authenticating → sm.authFail = true → sm.beAuth.state = .fail

variable {sm : EapolSm}

/-- A report that is about neither the PAE nor the backend nor the port. -/
def Neutral : Act → Prop
  | .authPae _ => False
  | .beAuth _ => False
  | .setPortAuthorized => False
  | .setPortUnauthorized => False
  | _ => True

theorem Neutral.ne_authPae {a : Act} (h : Neutral a) (s : AuthPaeState) : a ≠ .authPae s := by
  rintro rfl
  exact h

theorem Neutral.ne_beAuth {a : Act} (h : Neutral a) (s : BeAuthState) : a ≠ .beAuth s := by
  rintro rfl
  exact h

theorem Neutral.fresh {a : Act} {log : List Act} (h : Neutral a) (hlog : Fresh log) :
    Fresh (a :: log) := by
  refine hlog.cons (fun heq => absurd heq (h.ne_authPae _)) ?_
  rintro rfl
  exact h.elim

theorem Core.note (h : Core sm) {a : Act} (ha : Neutral a) : Core (sm.note a) where
  init_eq := h.init_eq
  portControl_eq := h.portControl_eq
  portMode_eq := h.portMode_eq
  portValid_eq := h.portValid_eq
  disabled := h.disabled
  unforced := h.unforced
  quiet := h.quiet
  started hs := (h.started hs).cons (ha.ne_authPae _)
  asked hs hbe := (h.asked hs hbe).cons (ha.ne_authPae _) ha.ne_beAuth
  answered hs hbe hflag := (h.answered hs hbe hflag).cons (ha.ne_authPae _)
  fresh := ha.fresh h.fresh
  opened hst := mem_cons_of_mem a (h.opened hst)

theorem Near.note (h : Near sm) {a : Act} (ha : Neutral a) : Near (sm.note a) :=
  { h.toCore.note ha with giveUp := h.giveUp, unsettled := h.unsettled }

theorem Ok.note (h : Ok sm) {a : Act} (ha : Neutral a) : Ok (sm.note a) :=
  { h.toCore.note ha with
    authAbort_eq := h.authAbort_eq
    success := fun hs hsucc => (h.success hs hsucc).imp_right fun hans =>
      hans.cons (ha.ne_authPae _)
    failed := h.failed }

/-! ## The PAE -/

theorem Ok.near_of_ne (h : Ok sm) (hs : sm.authPae.state ≠ .authenticating) : Near sm :=
  { h.toCore with
    giveUp := fun hab => absurd (h.authAbort_eq.symm.trans hab) (by simp)
    unsettled := fun heq => absurd heq hs }

theorem Ok.authPaeEntry (h : Ok sm) {s : AuthPaeState} (hs : s ≠ .authenticating)
    (hauth : s ≠ .authenticated) (hforce : s ≠ .forceAuth ∧ s ≠ .forceUnauth)
    (hdis : sm.portEnabled = false → s = .init)
    (hquiet : sm.beAuth.state ≠ .request ∧ sm.beAuth.state ≠ .response ∧
      (sm.beAuth.state = .idle → sm.authStart = false)) : Near (sm.authPaeEntry s) where
  init_eq := h.init_eq
  portControl_eq := h.portControl_eq
  portMode_eq := h.portMode_eq
  portValid_eq := h.portValid_eq
  disabled := hdis
  unforced := hforce
  quiet _ _ := hquiet
  started heq := absurd heq hs
  asked heq := absurd heq hs
  answered heq := absurd heq hs
  fresh := h.fresh.cons (fun heq => absurd (Act.authPae.inj heq) hauth) (fun heq => by cases heq)
  opened hst := mem_cons_of_mem _ (h.opened hst)
  giveUp hab := absurd (h.authAbort_eq.symm.trans hab) (by simp)
  unsettled heq := absurd heq hs

theorem Near.close (h : Near sm) : Near ({ sm with portStatus := .unauthorized }.note
    .setPortUnauthorized) where
  init_eq := h.init_eq
  portControl_eq := h.portControl_eq
  portMode_eq := h.portMode_eq
  portValid_eq := h.portValid_eq
  disabled := h.disabled
  unforced := h.unforced
  quiet := h.quiet
  started hs := (h.started hs).cons (by simp)
  asked hs hbe := (h.asked hs hbe).cons (by simp) (by simp)
  answered hs hbe hflag := (h.answered hs hbe hflag).cons (by simp)
  fresh := h.fresh.cons (by simp) (by simp)
  opened hst := by cases hst
  giveUp := h.giveUp
  unsettled := h.unsettled

section

variable (h : Ok sm) (hs : sm.authPae.state ≠ .authenticating)

include h hs

theorem Ok.authPaeInitialize : Near sm.authPaeInitialize := by
  have hentry := h.authPaeEntry (s := .init) (by simp) (by simp) (by simp) (fun _ => rfl)
    (h.quiet hs h.authAbort_eq)
  exact { hentry with portMode_eq := rfl }

theorem Ok.authPaeDisconnected (hon : sm.portEnabled = true) : Near sm.authPaeDisconnected := by
  have hentry := h.authPaeEntry (s := .disconnected) (by simp) (by simp) (by simp)
    (fun hoff => absurd (hon.symm.trans hoff) (by simp)) (h.quiet hs h.authAbort_eq)
  have hclosed := hentry.close
  unfold EapolSm.authPaeDisconnected
  dsimp only
  split
  · exact { hclosed.note (a := .txCannedFail sm.currentId) trivial with }
  · exact { hclosed with }

theorem Ok.authPaeConnecting (hon : sm.portEnabled = true) : Near sm.authPaeConnecting := by
  have hentry := h.authPaeEntry (s := .connecting) (by simp) (by simp) (by simp)
    (fun hoff => absurd (hon.symm.trans hoff) (by simp)) (h.quiet hs h.authAbort_eq)
  exact { hentry.note (a := .txInitialMsg sm.currentId) trivial with }

end

theorem Ok.authPaeHeld (h : Ok sm) (hbe : sm.beAuth.state = .fail)
    (hon : sm.portEnabled = true) : Near sm.authPaeHeld := by
  have hentry := h.authPaeEntry (s := .held) (by simp) (by simp) (by simp)
    (fun hoff => absurd (hon.symm.trans hoff) (by simp)) (by simp [hbe])
  exact { hentry.close with }

theorem Ok.authPaeAuthenticated (h : Ok sm) (hbe : sm.beAuth.state = .success)
    (hans : Answered sm.log) (hon : sm.portEnabled = true) : Near sm.authPaeAuthenticated where
  init_eq := h.init_eq
  portControl_eq := h.portControl_eq
  portMode_eq := h.portMode_eq
  portValid_eq := h.portValid_eq
  disabled hoff := absurd (hon.symm.trans hoff) (by simp)
  unforced := ⟨AuthPaeState.noConfusion, AuthPaeState.noConfusion⟩
  quiet _ _ := by
    show sm.beAuth.state ≠ _ ∧ sm.beAuth.state ≠ _ ∧ (sm.beAuth.state = _ → _)
    simp [hbe]
  started heq := by cases heq
  asked heq := by cases heq
  answered heq := by cases heq
  fresh := by
    have hent : Fresh (.authPae .authenticated :: sm.log) :=
      h.fresh.cons (fun _ => hans) (fun heq => by cases heq)
    exact hent.cons (fun heq => by cases heq) (fun _ => ⟨sm.log, rfl⟩)
  opened _ := mem_cons_self
  giveUp hab := absurd (h.authAbort_eq.symm.trans hab) (by simp)
  unsettled heq := by cases heq

theorem Ok.authPaeAuthenticating (h : Ok sm) (hs : sm.authPae.state ≠ .authenticating)
    (hon : sm.portEnabled = true) : Near sm.authPaeAuthenticating where
  init_eq := h.init_eq
  portControl_eq := h.portControl_eq
  portMode_eq := h.portMode_eq
  portValid_eq := h.portValid_eq
  disabled hoff := absurd (hon.symm.trans hoff) (by simp)
  unforced := ⟨AuthPaeState.noConfusion, AuthPaeState.noConfusion⟩
  quiet hne := absurd rfl hne
  started _ := started_enter
  asked _ hbe := absurd hbe (h.quiet hs h.authAbort_eq).2.1
  answered _ hbe := absurd hbe (h.quiet hs h.authAbort_eq).2.1
  fresh := h.fresh.cons (fun heq => by cases heq) (fun heq => by cases heq)
  opened hst := mem_cons_of_mem _ (h.opened hst)
  giveUp hab := absurd (h.authAbort_eq.symm.trans hab) (by simp)
  unsettled _ := ⟨rfl, rfl⟩

theorem Ok.authPaeAborting (h : Ok sm) (hon : sm.portEnabled = true) : Near sm.authPaeAborting where
  init_eq := h.init_eq
  portControl_eq := h.portControl_eq
  portMode_eq := h.portMode_eq
  portValid_eq := h.portValid_eq
  disabled hoff := absurd (hon.symm.trans hoff) (by simp)
  unforced := ⟨AuthPaeState.noConfusion, AuthPaeState.noConfusion⟩
  quiet _ hab := by cases hab
  started heq := by cases heq
  asked heq := by cases heq
  answered heq := by cases heq
  fresh := h.fresh.cons (fun heq => by cases heq) (fun heq => by cases heq)
  opened hst := mem_cons_of_mem _ (h.opened hst)
  giveUp _ := rfl
  unsettled heq := by cases heq

theorem Ok.authPaeVerdict (h : Ok sm) (hon : sm.portEnabled = true)
    (hs : sm.authPae.state = .authenticating) : Near sm.authPaeSwitch := by
  unfold EapolSm.authPaeSwitch
  rw [hs, h.portValid_eq]
  dsimp only
  split
  · next hsucc =>
    obtain ⟨hbe, hans⟩ := h.success hs (by simpa using hsucc)
    exact h.authPaeAuthenticated hbe hans hon
  · next hsucc =>
    split
    · next hfail => exact h.authPaeHeld (h.failed hs hfail) hon
    · next hfail =>
      split
      · exact h.authPaeAborting hon
      · exact { h.toCore with
          giveUp := fun hab => absurd (h.authAbort_eq.symm.trans hab) (by simp)
          unsettled := fun _ => ⟨by simpa using hsucc, by simpa using hfail⟩ }

theorem Ok.authPaeSwitch (h : Ok sm) (hon : sm.portEnabled = true) : Near sm.authPaeSwitch := by
  by_cases hauth : sm.authPae.state = .authenticating
  · exact h.authPaeVerdict hon hauth
  have hstay := h.near_of_ne hauth
  have hconn := h.authPaeConnecting hauth hon
  have hdisc := h.authPaeDisconnected hauth hon
  unfold EapolSm.authPaeSwitch
  split
  case h_1 => exact hdisc
  case h_2 => exact hconn
  case h_3 =>
    split
    · exact hconn
    · exact hstay
  case h_4 =>
    split
    · exact hdisc
    · split
      · exact h.authPaeAuthenticating hauth hon
      · split
        · exact hconn
        · exact hstay
  case h_5 =>
    split
    · exact hconn
    · split
      · exact hdisc
      · exact hstay
  case h_6 hs => exact absurd hs hauth
  case h_7 =>
    split
    · exact hdisc
    · split
      · exact hconn
      · exact hstay
  case h_8 hs => exact absurd hs h.unforced.1
  case h_9 hs => exact absurd hs h.unforced.2

theorem Ok.authPaeStep (h : Ok sm) : Near sm.authPaeStep := by
  unfold EapolSm.authPaeStep
  rw [h.portControl_eq, h.portMode_eq, h.init_eq]
  cases hon : sm.portEnabled with
  | false =>
    have hs := h.disabled hon
    simpa using h.authPaeInitialize (by simp [hs])
  | true => simpa using h.authPaeSwitch hon

/-! ## The backend -/

section

variable (h : Near sm)

include h

theorem Near.beAuthEntry {s : BeAuthState} (hs : s ≠ .response)
    (hquiet : sm.authPae.state ≠ .authenticating → s ≠ .request ∧
      (s = .idle → sm.authStart = false)) (hab : sm.authAbort = false) :
    Near (sm.beAuthEntry s) where
  init_eq := h.init_eq
  portControl_eq := h.portControl_eq
  portMode_eq := h.portMode_eq
  portValid_eq := h.portValid_eq
  disabled := h.disabled
  unforced := h.unforced
  quiet hne _ := ⟨(hquiet hne).1, hs, (hquiet hne).2⟩
  started hst := (h.started hst).cons (by simp)
  asked _ heq := absurd heq hs
  answered _ heq := absurd heq hs
  fresh := h.fresh.cons (by simp) (by simp)
  opened hst := mem_cons_of_mem _ (h.opened hst)
  giveUp hflag := absurd (hab.symm.trans hflag) (by simp)
  unsettled := h.unsettled

theorem Near.ok (hab : sm.authAbort = false) : Ok sm :=
  { h.toCore with
    authAbort_eq := hab
    success := fun hs hsucc => absurd ((h.unsettled hs).1.symm.trans hsucc) (by simp)
    failed := fun hs hfail => absurd ((h.unsettled hs).2.symm.trans hfail) (by simp) }

theorem Near.beAuthInitialize (hs : sm.authPae.state ≠ .authenticating) :
    Ok sm.beAuthInitialize where
  init_eq := h.init_eq
  portControl_eq := h.portControl_eq
  portMode_eq := h.portMode_eq
  portValid_eq := h.portValid_eq
  disabled := h.disabled
  unforced := h.unforced
  quiet _ _ := ⟨BeAuthState.noConfusion, BeAuthState.noConfusion, BeAuthState.noConfusion⟩
  started heq := absurd heq hs
  asked heq := absurd heq hs
  answered heq := absurd heq hs
  fresh := h.fresh.cons (by simp) (by simp)
  opened hst := mem_cons_of_mem _ (h.opened hst)
  authAbort_eq := rfl
  success heq := absurd heq hs
  failed heq := absurd heq hs

theorem Near.beAuthIdle (hab : sm.authAbort = false) : Ok sm.beAuthIdle := by
  have hclear : Near { sm with authStart := false } :=
    { h with quiet := fun hne hflag =>
        ⟨(h.quiet hne hflag).1, (h.quiet hne hflag).2.1, fun _ => rfl⟩ }
  have hentry := hclear.beAuthEntry (s := .idle) (by simp) (by simp) hab
  exact { hentry.ok hab with }

theorem Near.beAuthTimeout (hab : sm.authAbort = false) : Ok sm.beAuthTimeout := by
  have hentry := h.beAuthEntry (s := .timeout) (by simp) (by simp) hab
  unfold EapolSm.beAuthTimeout
  dsimp only
  split
  · exact { (hentry.note (a := .txCannedFail sm.currentId) trivial).ok hab with }
  · exact { hentry.ok hab with }

theorem Near.beAuthRequest (hs : sm.authPae.state = .authenticating) (hab : sm.authAbort = false) :
    Ok sm.beAuthRequest := by
  have hentry := h.beAuthEntry (s := .request) (by simp) (fun hne => absurd hs hne) hab
  exact { (hentry.note (a := .txReq sm.beAuth.idFromServer) trivial).ok hab with }

theorem Near.beAuthResponse (hs : sm.authPae.state = .authenticating) (hab : sm.authAbort = false) :
    Ok sm.beAuthResponse := by
  have hnear : Near sm.beAuthResponse :=
    { init_eq := h.init_eq
      portControl_eq := h.portControl_eq
      portMode_eq := h.portMode_eq
      portValid_eq := h.portValid_eq
      disabled := h.disabled
      unforced := h.unforced
      quiet := fun hne => absurd hs hne
      started := fun _ => ((h.started hs).cons (by simp)).cons (by simp)
      asked := fun _ _ => (h.started hs).ask.cons (by simp) (by simp)
      answered := fun _ _ hflag => by cases hflag
      fresh := (h.fresh.cons (by simp) (by simp)).cons (by simp) (by simp)
      opened := fun hst => mem_cons_of_mem _ (mem_cons_of_mem _ (h.opened hst))
      giveUp := h.giveUp
      unsettled := h.unsettled }
  exact hnear.ok hab

theorem Near.beAuthSuccess (hs : sm.authPae.state = .authenticating) (hab : sm.authAbort = false)
    (hans : Answered sm.log) : Ok sm.beAuthSuccess := by
  have hentry := h.beAuthEntry (s := .success) (by simp) (by simp) hab
  have hsent := hentry.note (a := .txReq sm.beAuth.idFromServer) trivial
  exact { hsent.ok hab with
    success := fun _ _ => ⟨rfl, (hans.cons (by simp)).cons (by simp)⟩
    failed := fun _ hfail => absurd ((h.unsettled hs).2.symm.trans hfail) (by simp) }

theorem Near.beAuthFail (hs : sm.authPae.state = .authenticating) (hab : sm.authAbort = false) :
    Ok sm.beAuthFail := by
  have hentry := h.beAuthEntry (s := .fail) (by simp) (by simp) hab
  have hsent := hentry.note (a := .txReq sm.beAuth.idFromServer) trivial
  exact { hsent.ok hab with
    success := fun _ hsucc => absurd ((h.unsettled hs).1.symm.trans hsucc) (by simp)
    failed := fun _ _ => rfl }

end

theorem Core.authenticating_of_waiting (h : Core sm) (hab : sm.authAbort = false)
    (hbe : sm.beAuth.state = .request ∨ sm.beAuth.state = .response ∨
      sm.beAuth.state = .idle ∧ sm.authStart = true) : sm.authPae.state = .authenticating := by
  by_contra hne
  obtain ⟨hreq, hresp, hidle⟩ := h.quiet hne hab
  rcases hbe with hbe | hbe | ⟨hbe, hstart⟩
  · exact hreq hbe
  · exact hresp hbe
  · exact absurd ((hidle hbe).symm.trans hstart) (by simp)

theorem Near.beAuthStep (h : Near sm) : Ok sm.beAuthStep := by
  unfold EapolSm.beAuthStep
  rw [h.portControl_eq, h.init_eq]
  cases hab : sm.authAbort with
  | true =>
    have hs := h.giveUp hab
    simpa using h.beAuthInitialize (by simp [hs])
  | false =>
    have hstay := h.ok hab
    simp only [bne_self_eq_false, Bool.or_self, Bool.false_eq_true, if_false]
    split
    case h_1 => exact h.beAuthIdle hab
    case h_2 hbe =>
      have hs := h.authenticating_of_waiting hab (.inl hbe)
      split
      · exact h.beAuthRequest hs hab
      · split
        · exact h.beAuthResponse hs hab
        · split
          · exact h.beAuthTimeout hab
          · exact hstay
    case h_3 hbe =>
      have hs := h.authenticating_of_waiting hab (.inr (.inl hbe))
      split
      · exact h.beAuthRequest hs hab
      · split
        · exact h.beAuthTimeout hab
        · split
          · exact h.beAuthFail hs hab
          · split
            · next hflag => exact h.beAuthSuccess hs hab (h.answered hs hbe hflag)
            · exact hstay
    case h_4 => exact h.beAuthIdle hab
    case h_5 => exact h.beAuthIdle hab
    case h_6 => exact h.beAuthIdle hab
    case h_7 hbe =>
      split
      · next hstart =>
        exact h.beAuthResponse (h.authenticating_of_waiting hab (.inr (.inr ⟨hbe, hstart⟩))) hab
      · exact hstay

/-! ## The other two machines -/

theorem Ok.reauthTimerStep (h : Ok sm) : Ok sm.reauthTimerStep := by
  have hinit : Ok sm.reauthTimerInitialize :=
    { h.note (a := .reauthTimer .init) trivial with }
  unfold EapolSm.reauthTimerStep
  split
  · exact hinit
  · split
    · split
      · exact { h.note (a := .reauthTimer .reauthenticate) trivial with }
      · exact h
    · exact hinit

theorem Ok.authKeyTxStep (h : Ok sm) : Ok sm.authKeyTxStep := by
  have hnone : Ok (sm.authKeyTxEntry .noKeyTransmit) :=
    { h.note (a := .authKeyTx .noKeyTransmit) trivial with }
  have hsend : Ok sm.authKeyTxKeyTransmit :=
    { (h.note (a := .authKeyTx .keyTransmit) trivial).note (a := .txKey sm.currentId) trivial with }
  unfold EapolSm.authKeyTxStep
  split
  · exact hnone
  · split
    · split
      · exact hsend
      · exact h
    · split
      · exact hnone
      · split
        · exact hsend
        · exact h

/-! ## Whole runs -/

/-- **Pass lemma**: one pass of `eapol_sm_step` keeps the invariant. -/
theorem Ok.pass (h : Ok sm) : Ok sm.eapolSmPass :=
  h.authPaeStep.beAuthStep.reauthTimerStep.authKeyTxStep

theorem Ok.eapolSmStep (n : Nat) (h : Ok sm) : Ok (EapolSm.eapolSmStep n sm) := by
  induction n generalizing sm with
  | zero => exact h
  | succ n ih =>
    unfold EapolSm.eapolSmStep
    split
    · exact h.pass
    · exact ih h.pass

theorem Ok.raiseSuccess (h : Ok sm) :
    Ok ({ sm with beAuth.aSuccess := true }.note (.raised .aSuccess)) :=
  { h.note (a := .raised .aSuccess) trivial with
    answered := fun hs hbe _ => (h.asked hs hbe).answer }

theorem Ok.raise (h : Ok sm) (e : Event) : Ok (sm.raise e) := by
  cases e with
  | portEnable => exact { h with disabled := fun hoff => by cases hoff }
  | eapStart => exact { h.note (a := .raised .eapStart) trivial with }
  | eapLogoff => exact { h.note (a := .raised .eapLogoff) trivial with }
  | rxInitialRsp => exact { h.note (a := .raised .rxInitialRsp) trivial with }
  | rxResp => exact { h.note (a := .raised .rxResp) trivial with }
  | accessAccept reAuthPeriod keys id => exact { h.raiseSuccess with }
  | accessReject id => exact { h.note (a := .raised .aFail) trivial with }
  | accessChallenge suppTimeout id => exact { h.note (a := .raised .aReq) trivial with }
  | tick => exact { h with }
  | step => exact h

theorem Ok.handle (h : Ok sm) (e : Event × Nat) : Ok (sm.handle e) :=
  (h.raise e.1).eapolSmStep e.2

end EapolSm

theorem EapolSm.eapolSmPass_init {sm : EapolSm} (h : sm.init = true) : sm.eapolSmPass =
      sm.authPaeInitialize.beAuthInitialize.reauthTimerInitialize.authKeyTxEntry
        .noKeyTransmit := by
  have hpae : sm.authPaeStep = sm.authPaeInitialize := by
    simp [EapolSm.authPaeStep, h]
  have hbe : sm.authPaeInitialize.beAuthStep = sm.authPaeInitialize.beAuthInitialize := by
    have hinit : sm.authPaeInitialize.init = true := h
    simp [EapolSm.beAuthStep, hinit]
  have hre : sm.authPaeInitialize.beAuthInitialize.reauthTimerStep =
      sm.authPaeInitialize.beAuthInitialize.reauthTimerInitialize := by
    have hinit : sm.authPaeInitialize.beAuthInitialize.init = true := h
    simp [EapolSm.reauthTimerStep, hinit]
  have hkey : sm.authPaeInitialize.beAuthInitialize.reauthTimerInitialize.authKeyTxStep =
      sm.authPaeInitialize.beAuthInitialize.reauthTimerInitialize.authKeyTxEntry
        .noKeyTransmit := by
    have hinit : sm.authPaeInitialize.beAuthInitialize.reauthTimerInitialize.init = true := h
    simp [EapolSm.authKeyTxStep, hinit]
  rw [EapolSm.eapolSmPass, hpae, hbe, hre, hkey]

theorem fresh_nil : Fresh [] := by
  intro late before
  simp

/-- What the first call of `eapol_sm_initialize` leaves. -/
def eapolSmReset (conf : RtapdConfig) : EapolSm :=
  { EapolSm.eapolSmStep 1 { eapolSmZero conf with init := true } with init := false }

theorem eapolSmReset_eq (conf : RtapdConfig) : eapolSmReset conf =
    { { eapolSmZero conf with init := true }.authPaeInitialize.beAuthInitialize
        |>.reauthTimerInitialize.authKeyTxEntry .noKeyTransmit with init := false } := by
  have hone : EapolSm.eapolSmStep 1 { eapolSmZero conf with init := true } =
      { eapolSmZero conf with init := true }.eapolSmPass := by
    unfold EapolSm.eapolSmStep
    split
    · rfl
    · rfl
  rw [eapolSmReset, hone, EapolSm.eapolSmPass_init rfl]

theorem eapolSmReset_ok (conf : RtapdConfig) : (eapolSmReset conf).Ok := by
  rw [eapolSmReset_eq]
  exact
    { init_eq := rfl
      portControl_eq := rfl
      portMode_eq := rfl
      portValid_eq := rfl
      disabled := fun _ => rfl
      unforced := ⟨AuthPaeState.noConfusion, AuthPaeState.noConfusion⟩
      quiet := fun _ _ =>
        ⟨BeAuthState.noConfusion, BeAuthState.noConfusion, BeAuthState.noConfusion⟩
      started := fun heq => by cases heq
      asked := fun heq => by cases heq
      answered := fun heq => by cases heq
      fresh := ((((fresh_nil.cons (by simp) (by simp)).cons (by simp) (by simp)).cons
        (by simp) (by simp)).cons (by simp) (by simp))
      opened := fun hst => by cases hst
      authAbort_eq := rfl
      success := fun heq => by cases heq
      failed := fun heq => by cases heq }

theorem eapolSmAlloc_ok (conf : RtapdConfig) : (eapolSmAlloc conf).Ok :=
  (eapolSmReset_ok conf).eapolSmStep 2

/-- **Authorization freshness**: in every run of a station's machine, every entry into
    `AUTHENTICATED` comes after a success that was raised while the backend was in the
    `RESPONSE` of the same attempt; the port is opened by these entries only. -/
theorem eapol_authorized_fresh (conf : RtapdConfig) (es : List (Event × Nat)) :
    Fresh (eapolRun conf es).log ∧
      ((eapolRun conf es).portStatus = .authorized →
        ∃ late before, (eapolRun conf es).log =
          late ++ .setPortAuthorized :: .authPae .authenticated :: before ∧ Answered before) := by
  have hok : (eapolRun conf es).Ok :=
    runEvents_invariant es (fun _ e h => h.handle e) (eapolSmAlloc_ok conf)
  refine ⟨hok.fresh, fun hst => ?_⟩
  obtain ⟨late, before, hlog⟩ := List.append_of_mem (hok.opened hst)
  obtain ⟨earlier, rfl⟩ := (hok.fresh late before).2 hlog
  refine ⟨late, earlier, hlog, ?_⟩
  refine (hok.fresh (late ++ [.setPortAuthorized]) earlier).1 ?_
  rw [hlog]
  simp

/-- An attempt that succeeds opens the port. -/
example : (eapolRun ⟨60, false, 0⟩ [(.portEnable, 10), (.rxInitialRsp, 10),
    (.accessAccept none false none, 10)]).portStatus = .authorized := by decide +kernel

end RalinkSdk.Dot1x
