import RalinkSdk.Lib.Run
import RalinkSdk.Wpa.Honest

/-!
# Installing a pairwise key

Every installation starts the packet number again, so the PTK must be a new one each time: one of
the two nonces it was derived from has to be new.  Messages 3 and 4 are accepted by their MIC and
their counter, in whatever state the entry is; a message 4 that is sent again, or a message 3 with
a larger counter, installs the same PTK once more.
-/

namespace RalinkSdk.Wpa

open Lib Crypt Option List

/-! ## The history of the keys of a peer -/

/-- The nonces of the PTK that an entry has, and those of the PTKs that were installed. -/
structure KeyHistory where
  nonces : Nonce × Nonce
  used : List (Nonce × Nonce)
  /-- a PTK was installed whose nonces were those of an earlier one -/
  reused : Bool
deriving DecidableEq

namespace KeyHistory

/-- What an effect adds to the history. -/
def observe (h : KeyHistory) : Effect → KeyHistory
  | .derived _ aNonce sNonce => { h with nonces := (aNonce, sNonce) }
  | .installed _ =>
    { h with used := h.nonces :: h.used, reused := h.reused || h.nonces ∈ h.used }
  | .sent _ | .cached _ _ | .loaded _ _ | .overflow => h

/-- What the effects of a step add to the history. -/
def observeAll (h : KeyHistory) (effects : List Effect) : KeyHistory := effects.foldl observe h

@[simp] theorem observeAll_nil (h : KeyHistory) : h.observeAll [] = h := rfl

@[simp] theorem observeAll_cons (h : KeyHistory) (x : Effect) (effects : List Effect) :
    h.observeAll (x :: effects) = (h.observe x).observeAll effects := rfl

theorem observeAll_append (h : KeyHistory) (xs ys : List Effect) :
    h.observeAll (xs ++ ys) = (h.observeAll xs).observeAll ys := foldl_append

/-- A random nonce is none of those installed. -/
def Unused (h : KeyHistory) (rand : Nonce) : Prop := ∀ p ∈ h.used, p.1 ≠ rand ∧ p.2 ≠ rand

end KeyHistory

/-! ## The invariant -/

/-- While a handshake is under way, the nonce that this side chose is in no installed PTK; once the
    peer's nonce is there, too, the PTK is that of the two nonces of the entry. -/
structure KeyInv (h : KeyHistory) (e : Entry) : Prop where
  client : e.kind = .client → e.wpaState = .ptkStart ∨ e.wpaState = .ptkInitNegotiating →
    ∀ p ∈ h.used, p.1 ≠ e.aNonce
  apcli : e.kind = .apcli → e.wpaState = .ptkInitNegotiating → ∀ p ∈ h.used, p.2 ≠ e.sNonce
  current : e.wpaState = .ptkInitNegotiating → h.nonces = (e.aNonce, e.sNonce)

namespace KeyInv

variable {h : KeyHistory} {e e' : Entry}

theorem of_same (hinv : KeyInv h e) (hkind : e'.kind = e.kind) (ha : e'.aNonce = e.aNonce)
    (hs : e'.sNonce = e.sNonce) (hstate : e'.wpaState = e.wpaState ∨
      (e'.wpaState ≠ .ptkStart ∧ e'.wpaState ≠ .ptkInitNegotiating)) : KeyInv h e' := by
  constructor
  · intro hk hst
    rw [ha]
    rcases hstate with heq | ⟨h1, h2⟩
    · exact hinv.client (hkind ▸ hk) (heq ▸ hst)
    · exact absurd hst (not_or.mpr ⟨h1, h2⟩)
  · intro hk hst
    rw [hs]
    rcases hstate with heq | ⟨-, h2⟩
    · exact hinv.apcli (hkind ▸ hk) (heq ▸ hst)
    · exact absurd hst h2
  · intro hst
    rw [ha, hs]
    rcases hstate with heq | ⟨-, h2⟩
    · exact hinv.current (heq ▸ hst)
    · exact absurd hst h2

theorem of_done (hstate : e.wpaState = .ptkInitDone) : KeyInv h e := by
  constructor
  · intro _ hst
    rw [hstate] at hst
    exact absurd hst (by decide)
  · intro _ hst
    rw [hstate] at hst
    exact absurd hst (by decide)
  · intro hst
    rw [hstate] at hst
    exact absurd hst (by decide)

theorem of_begun (hkind : e.kind = .client) (hstate : e.wpaState ≠ .ptkInitNegotiating)
    (hrand : h.Unused e.aNonce) : KeyInv h e := by
  constructor
  · intro _ _ p hp
    exact (hrand p hp).1
  · intro hk _
    rw [hkind] at hk
    exact absurd hk (by decide)
  · intro hst
    exact absurd hst hstate

theorem nonces_unused (hinv : KeyInv h e) (hkind : e.kind = .client ∨ e.kind = .apcli)
    (hstate : e.wpaState = .ptkInitNegotiating) : h.nonces ∉ h.used := by
  intro hmem
  rw [hinv.current hstate] at hmem
  rcases hkind with hk | hk
  · exact hinv.client hk (.inr hstate) _ hmem rfl
  · exact hinv.apcli hk hstate _ hmem rfl

end KeyInv

theorem KeyHistory.reused_observeAll_installed {h : KeyHistory} {installed : List Effect}
    (hreused : h.reused = false) (hnew : h.nonces ∉ h.used)
    (hinst : installed = [] ∨ ∃ key, installed = [.installed key]) :
    (h.observeAll installed).reused = false := by
  rcases hinst with rfl | ⟨key, rfl⟩
  · exact hreused
  · simp [KeyHistory.observe, hreused, hnew]

/-! ## One step -/

/-- The history after a step has no repetition, and the invariant holds of the entry. -/
def KeptBy (a : MacAddr) (h : KeyHistory) (o : Outcome) : Prop :=
  (h.observeAll (o.2 a)).reused = false ∧
    ∀ e, o.1.macTab.entry a = some e → KeyInv (h.observeAll (o.2 a)) e

section

variable {c : Crypto} {a : MacAddr} {h : KeyHistory} {ad : Adapter} {e : Entry} {env : Env}

variable (hq : KeptBy a h ad.quiet)

include hq

theorem KeptBy.put {e' : Entry} {effects : List Effect} (hentry : e'.addr = a →
      (h.observeAll effects).reused = false ∧ KeyInv (h.observeAll effects) e') :
    KeptBy a h (ad.put e' effects) := by
  rcases eq_or_ne a e'.addr with rfl | hne
  · obtain ⟨hreused, hinv⟩ := hentry rfl
    simp only [KeptBy, Adapter.put, if_true]
    refine ⟨hreused, fun e he => ?_⟩
    rw [MacTab.set_entry_self] at he
    exact some.inj he ▸ hinv
  · simp only [KeptBy, Adapter.put, if_neg hne, MacTab.set_entry_of_ne _ _ hne]
    exact hq

theorem KeptBy.put_quiet {e' : Entry} {effects : List Effect} (heff : h.observeAll effects = h)
    (hentry : e'.addr = a → KeyInv h e') : KeptBy a h (ad.put e' effects) :=
  hq.put fun ha => by
    rw [heff]
    exact ⟨hq.1, hentry ha⟩

variable {b : MacAddr}

theorem KeptBy.entryInv (he : ad.macTab.entry b = some e) (ha : e.addr = a) : KeyInv h e := by
  obtain rfl : a = b := by rw [← ha, ad.macTab.addr_eq _ _ he]
  exact hq.2 e he

theorem KeptBy.start4WayHS (hrand : e.addr = a → h.Unused env.rand)
    (hinv : e.addr = a → KeyInv h e) : KeptBy a h (start4WayHS c ad e env) := by
  unfold Wpa.start4WayHS
  rcases wpaStart4WayHS_cases c (ad.bssOf e) e env with
    ⟨-, hrun⟩ | ⟨-, -, hrun⟩ | ⟨hgo, -, -, hrun⟩ | ⟨hgo, -, -, msg1, hrun⟩
  · rw [hrun]
    exact .put_quiet hq rfl hinv
  · rw [hrun]
    exact .put_quiet hq rfl fun ha => (hinv ha).of_same rfl rfl rfl (.inr (by simp))
  · rw [hrun]
    simp only [StartRefused, not_or, not_ne_iff, not_lt] at hgo
    refine .put_quiet hq rfl fun ha => .of_begun hgo.2.1 ?_ (hrand ha)
    intro hst
    have hstate := hgo.2.2.2.1
    rw [show e.wpaState = .ptkInitNegotiating from hst] at hstate
    exact absurd hstate (by decide)
  · rw [hrun]
    simp only [StartRefused, not_or, not_ne_iff] at hgo
    refine .put_quiet hq ?_ fun ha => .of_begun hgo.2.1 (by simp) (hrand ha)
    unfold loadedKey
    split <;> rfl

theorem KeptBy.pairMsg2 (f : Elem) (hinv : e.addr = a → KeyInv h e)
    (hearly : e.addr = a → Msg2Accepted c (ad.bssOf e) e f env →
      e.wpaState.num < WpaState.ptkInitDone.num) :
    KeptBy a h (runAction c ad e f env .pairMsg2) := by
  unfold runAction
  rcases peerPairMsg2Action_cases c (ad.bssOf e) e f env with
    ⟨-, hrun⟩ | ⟨hgo, -, hrun⟩ | ⟨hgo, hacc, msg3, hrun⟩
  · rw [hrun]
    exact .put_quiet hq rfl hinv
  · rw [hrun]
    refine .put hq fun ha => ⟨hq.1, ?_⟩
    obtain ⟨hclient, hapcli, -⟩ := hinv ha
    refine ⟨hclient, fun hk => ?_, fun _ => rfl⟩
    exact absurd (.inl (by simp [show e.kind = .apcli from hk])) hgo
  · rw [hrun]
    refine .put hq fun ha => ⟨hq.1, ?_⟩
    simp only [Msg2Dropped, not_or, not_ne_iff, not_lt] at hgo
    refine ⟨fun _ _ => ?_, fun hk _ => ?_, fun _ => rfl⟩
    · refine (hinv ha).client hgo.1 ?_
      have hlate := hearly ha hacc
      have hstarted := hgo.2.2.1
      cases hst : e.wpaState <;> rw [hst] at hlate hstarted <;> revert hlate hstarted <;> decide
    · exact absurd hgo.1 (by simp [show e.kind = .apcli from hk])

theorem KeptBy.pairMsg4 (f : Elem) (hinv : e.addr = a → KeyInv h e)
    (hearly : e.addr = a → Msg4Accepted c (ad.bssOf e) e f env → e.wpaState = .ptkInitNegotiating) :
    KeptBy a h (runAction c ad e f env .pairMsg4) := by
  unfold runAction
  rcases peerPairMsg4Action_cases c (ad.bssOf e) e f env with
    ⟨-, hrun⟩ | ⟨hacc, pairwiseKey, asicKey, gtkState, rCounter, effects, hrun, -, heff⟩
  · rw [hrun]
    exact .put_quiet hq rfl hinv
  · rw [hrun]
    refine .put hq fun ha => ⟨?_, .of_done rfl⟩
    obtain ⟨rest, rfl, hrest⟩ := heff
    have hquiet : ∀ h' : KeyHistory, h'.observeAll rest = h' := by
      intro h'
      split_ifs at hrest
      · rw [hrest]
        rfl
      · rcases hrest with rfl | ⟨msg1, rfl⟩ <;> rfl
    rw [KeyHistory.observeAll_append, hquiet]
    exact KeyHistory.reused_observeAll_installed hq.1
      ((hinv ha).nonces_unused (.inl hacc.1) (hearly ha hacc))
      (wpaInstallPairwiseKey_effects e true)

theorem KeptBy.pairMsg1 (f : Elem) (hrand : e.addr = a → h.Unused env.rand)
    (hinv : e.addr = a → KeyInv h e) : KeptBy a h (runAction c ad e f env .pairMsg1) := by
  unfold runAction
  split_ifs with hkind
  · exact hq
  rcases peerPairMsg1Action_cases c ad.apCli e f env with hrun | ⟨rest, hrest, hrun⟩
  · rw [hrun]
    exact .put_quiet hq rfl hinv
  · rw [hrun]
    refine .put hq fun ha => ?_
    have hhist : h.observeAll (.derived ad.apCli.pmk f.packet.keyNonce env.rand :: rest) =
        { h with nonces := (f.packet.keyNonce, env.rand) } := by
      rcases hrest with rfl | ⟨msg2, rfl⟩ <;> rfl
    rw [hhist]
    refine ⟨hq.1, fun hk => ?_, fun _ _ p hp => (hrand ha p hp).2, fun _ => rfl⟩
    exact absurd (show e.kind ≠ .apcli by simp [show e.kind = .client from hk]) hkind

theorem KeptBy.pairMsg3 (f : Elem) (hinv : e.addr = a → KeyInv h e)
    (hearly : e.addr = a → Msg3Accepted c ad.apCli e f env → e.wpaState = .ptkInitNegotiating) :
    KeptBy a h (runAction c ad e f env .pairMsg3) := by
  unfold runAction
  split_ifs with hkind
  · exact hq
  have hkind' : e.kind = .apcli := not_ne_iff.mp hkind
  rcases peerPairMsg3Action_cases c ad.apCli e f env with
    ⟨-, s, rCounter, effects, hrun, heff⟩ |
      ⟨hacc, s, pairwiseKey, asicKey, acceptAll, portSecured, installed, msg4, hrun, hinst⟩
  · rw [hrun]
    refine .put_quiet (show KeptBy a h ({ ad with apCli := s } : Adapter).quiet from hq) ?_ fun ha =>
      (hinv ha).of_same rfl rfl rfl (.inl rfl)
    rcases heff with rfl | rfl <;> rfl
  · rw [hrun]
    refine .put (show KeptBy a h ({ ad with apCli := s } : Adapter).quiet from hq) fun ha =>
      ⟨?_, .of_done rfl⟩
    rw [KeyHistory.observeAll_append]
    change (h.observeAll installed).reused = false
    exact KeyHistory.reused_observeAll_installed hq.1
      ((hinv ha).nonces_unused (.inr hkind') (hearly ha hacc)) hinst

theorem KeptBy.groupMsg1 (f : Elem) (hinv : e.addr = a → KeyInv h e) :
    KeptBy a h (runAction c ad e f env .groupMsg1) := by
  unfold runAction
  split_ifs
  · exact hq
  obtain ⟨s, rCounter, portSecured, acceptAll, effects, hrun, heff⟩ :=
    peerGroupMsg1Action_cases c ad.apCli e f env
  rw [hrun]
  refine .put_quiet (show KeptBy a h ({ ad with apCli := s } : Adapter).quiet from hq) ?_ fun ha =>
    (hinv ha).of_same rfl rfl rfl (.inl rfl)
  rcases heff with rfl | rfl | ⟨msg2, rfl⟩ <;> rfl

theorem KeptBy.groupMsg2 (f : Elem) (hinv : e.addr = a → KeyInv h e) :
    KeptBy a h (runAction c ad e f env .groupMsg2) := by
  unfold runAction
  rcases peerGroupMsg2Action_cases c (ad.bssOf e) e f env with hrun | ⟨-, hrun⟩
  · rw [hrun]
    exact .put_quiet hq rfl hinv
  · rw [hrun]
    exact .put_quiet hq rfl fun ha => (hinv ha).of_same rfl rfl rfl (.inl rfl)

theorem KeptBy.counterMeasure (hinv : e.addr = a → KeyInv h e) :
    KeptBy a h (handleCounterMeasure ad e env).quiet := by
  have hmarked : KeptBy a h (ad.put { e with cmTimerRunning := true } []) :=
    .put_quiet hq rfl fun ha => (hinv ha).of_same rfl rfl rfl (.inl rfl)
  unfold handleCounterMeasure
  dsimp only
  split_ifs
  · exact hq
  · exact hq
  · refine ⟨hq.1, fun x hx => ?_⟩
    have hx' := (filter_eq_some_iff.mp hx).1
    have hkept := hmarked.2 x hx'
    change KeyInv h x
    simpa [Adapter.put] using hkept
  · refine ⟨hq.1, fun x hx => ?_⟩
    have hkept := hmarked.2 x hx
    change KeyInv h x
    simpa [Adapter.put] using hkept

theorem KeptBy.groupKeyRequest : KeptBy a h (requestGroupKey c ad e env) := by
  have hquiet : h.observeAll ((requestGroupKey c ad e env).2 a) = h := by
    simp only [requestGroupKey]
    cases ad.macTab.entry a with
    | none => rfl
    | some x =>
      dsimp only
      unfold restartGroupHS
      split_ifs
      · rcases wpaStart2WayGroupHS_cases c _ { x with gtkState := .negotiating } env with
          hrun | ⟨msg1, hrun⟩
        · rw [hrun]
          rfl
        · rw [hrun]
          rfl
      · rfl
  refine ⟨by rw [hquiet]; exact hq.1, fun x hx => ?_⟩
  rw [hquiet]
  obtain ⟨x0, hx0, rfl⟩ := map_eq_some_iff.mp hx
  obtain ⟨gtkState, rCounter, hrun⟩ := restartGroupHS_eq c
    ⟨newGroupKey c (ad.mbss e.apidx) env, e.apidx < ad.bssidNum, ad.resetting⟩ e.apidx x0 env
  rw [hrun]
  exact (hq.2 x0 hx0).of_same rfl rfl rfl (.inl rfl)

/-! ## Runs -/

/-- The checks of messages 2, 3 and 4 pass only before the handshake is over, messages 3 and 4 only
    while it is under way. -/
def ActionInTime (c : Crypto) (ad : Adapter) (e : Entry) (f : Elem) (env : Env) :
    Option Action → Prop
  | some .pairMsg2 =>
    Msg2Accepted c (ad.bssOf e) e f env → e.wpaState.num < WpaState.ptkInitDone.num
  | some .pairMsg3 => Msg3Accepted c ad.apCli e f env → e.wpaState = .ptkInitNegotiating
  | some .pairMsg4 => Msg4Accepted c (ad.bssOf e) e f env → e.wpaState = .ptkInitNegotiating
  | _ => True

/-- An event for the peer `a` draws a nonce that is in no installed PTK, and its message comes in
    time. -/
def InTime (c : Crypto) (a : MacAddr) (ad : Adapter) (h : KeyHistory) : Event → Prop
  | .eapolKey f env => f.addr2 = a → h.Unused env.rand ∧
      ∀ e, ad.macTab.entry a = some e → ActionInTime c ad e f env (actionOf f.packet)
  | .eapolStart b env | .eapSuccess b env | .retry b _ env => b = a → h.Unused env.rand
  | .eapRequest _ | .addWPAKey _ _ _ | .assocPmkid _ _ => True

theorem KeptBy.eapolKey (f : Elem) (hin : InTime c a ad h (.eapolKey f env)) :
    KeptBy a h (wpaEAPOLKeyAction c ad f env) := by
  unfold wpaEAPOLKeyAction
  cases he : ad.macTab.entry f.addr2 with
  | none => exact hq
  | some e =>
    dsimp only
    split_ifs
    · exact hq
    have haddr : e.addr = f.addr2 := ad.macTab.addr_eq _ _ he
    have hinv : e.addr = a → KeyInv h e := hq.entryInv he
    have hrand : e.addr = a → h.Unused env.rand := fun ha => (hin (haddr ▸ ha)).1
    have htime : e.addr = a → ActionInTime c ad e f env (actionOf f.packet) := fun ha =>
      (hin (haddr ▸ ha)).2 e (by rw [← ha, haddr, he])
    cases haction : actionOf f.packet with
    | none => exact hq
    | some action =>
      rw [haction] at htime
      cases action with
      | pairMsg1 => exact hq.pairMsg1 f hrand hinv
      | pairMsg2 => exact hq.pairMsg2 f hinv htime
      | pairMsg3 => exact hq.pairMsg3 f hinv htime
      | pairMsg4 => exact hq.pairMsg4 f hinv htime
      | groupMsg1 => exact hq.groupMsg1 f hinv
      | groupMsg2 => exact hq.groupMsg2 f hinv
      | counterMeasure => exact hq.counterMeasure hinv
      | groupKeyRequest => exact hq.groupKeyRequest
      | pairwiseKeyRequest =>
        refine hq.start4WayHS hrand fun ha => (hinv ha).of_same rfl rfl rfl ?_
        unfold clearedEntry
        dsimp only
        split_ifs
        · exact .inr (by simp)
        · exact .inr (by simp)
        · exact .inl rfl

theorem KeptBy.startAt {e' : Entry} (he : ad.macTab.entry b = some e)
    (hrand : b = a → h.Unused env.rand) (haddr : e'.addr = b)
    (hinv : e.addr = a → KeyInv h e → KeyInv h e') : KeptBy a h (Wpa.start4WayHS c ad e' env) := by
  have hb : e.addr = b := ad.macTab.addr_eq _ _ he
  refine hq.start4WayHS (fun ha => hrand (haddr ▸ ha)) fun ha => ?_
  have hea : e.addr = a := hb.trans (haddr.symm.trans ha)
  exact hinv hea (hq.entryInv he hea)

theorem KeptBy.eapolStart (hin : InTime c a ad h (.eapolStart b env)) :
    KeptBy a h (wpaEAPOLStartAction c ad b env) := by
  unfold wpaEAPOLStartAction
  refine atEntry hq fun e he haddr => ?_
  split_ifs
  · exact hq.startAt he hin haddr fun _ hinv => hinv.of_same rfl rfl rfl (.inr (by simp))
  · exact hq

theorem KeptBy.eapSuccess (hin : InTime c a ad h (.eapSuccess b env)) :
    KeptBy a h (wpaSendSuccess c ad b env) := by
  unfold wpaSendSuccess
  refine atEntry hq fun e he haddr => ?_
  split_ifs
  · exact hq.startAt he hin haddr fun _ hinv => hinv.of_same rfl rfl rfl (.inr (by simp))
  · exact hq

theorem KeptBy.eapRequest (b : MacAddr) : KeptBy a h (wpaSendRequest ad b) := by
  unfold wpaSendRequest
  refine atEntry hq fun e he _ => ?_
  split_ifs
  · exact hq.put_quiet rfl fun ha => (hq.entryInv he ha).of_same rfl rfl rfl (.inr (by simp))
  · exact hq

theorem KeptBy.retry {group : Bool} (hin : InTime c a ad h (.retry b group env)) :
    KeptBy a h (wpaRetryExec c ad b group env) := by
  unfold wpaRetryExec
  refine atEntry hq fun e he haddr => ?_
  split_ifs
  · exact hq
  · -- the group handshake leaves the pairwise key alone
    rcases wpaStart2WayGroupHS_cases c (ad.bssOf e) e env with hrun | ⟨msg1, hrun⟩
    · rw [hrun]
      exact hq.put_quiet rfl (hq.entryInv he)
    · rw [hrun]
      exact hq.put_quiet rfl fun ha => (hq.entryInv he ha).of_same rfl rfl rfl (.inl rfl)
  · exact hq
  · exact hq.startAt he hin haddr fun _ hinv => hinv

theorem KeptBy.step (ev : Event) (hin : InTime c a ad h ev) : KeptBy a h (step c ad ev) := by
  cases ev with
  | eapolKey f env => exact hq.eapolKey f hin
  | eapolStart b env => exact hq.eapolStart hin
  | eapSuccess b env => exact hq.eapSuccess hin
  | eapRequest b => exact hq.eapRequest b
  | retry b group env => exact hq.retry hin
  | addWPAKey apidx b keyMaterial =>
    simp only [Wpa.step, rtmpIoctlAddWPAKey]
    split_ifs
    · exact hq
    · exact hq
  | assocPmkid b pmkid =>
    simp only [Wpa.step, assocPmkid]
    cases he : ad.macTab.entry b with
    | none => exact hq
    | some e =>
      have hinv : e.addr = a → KeyInv h e := hq.entryInv he
      dsimp only
      split_ifs
      · have hput : KeptBy a h (ad.put
            { e with pmkidCacheIdx := pmkidMatch (ad.mbss e.apidx) e pmkid } []) :=
          hq.put_quiet rfl fun ha =>
            (hinv ha).of_same rfl rfl rfl (.inl rfl)
        simpa [KeptBy, Adapter.put, Adapter.quiet] using hput
      · exact hq

end

/-- An adapter with the history of the keys of one peer. -/
structure Watched where
  adapter : Adapter
  history : KeyHistory

variable (c : Crypto)

/-- One event, seen from the peer `a`. -/
def watchedStep (a : MacAddr) (s : Watched) (ev : Event) : Watched where
  adapter := (step c s.adapter ev).1
  history := s.history.observeAll ((step c s.adapter ev).2 a)

/-- No key has been installed yet; the PTK of the entry is that of its nonces. -/
def Watched.start (ad : Adapter) (a : MacAddr) : Watched where
  adapter := ad
  history :=
    match ad.macTab.entry a with
    | none => ⟨(0, 0), [], false⟩
    | some e => ⟨(e.aNonce, e.sNonce), [], false⟩

theorem Watched.start_keptBy (ad : Adapter) (a : MacAddr) :
    KeptBy a (Watched.start ad a).history ad.quiet := by
  unfold Watched.start
  cases he : ad.macTab.entry a with
  | none => exact ⟨rfl, fun e h => absurd h (by simp [Adapter.quiet, he])⟩
  | some e =>
    refine ⟨rfl, fun x hx => ?_⟩
    obtain rfl : e = x := some.inj (he.symm.trans hx)
    exact ⟨fun _ _ _ hp => absurd hp not_mem_nil,
      fun _ _ _ hp => absurd hp not_mem_nil, fun _ => rfl⟩

/-- The address of a station. -/
def peer : MacAddr := 0x001018000002

/-- The PTK of the access point's nonce 1 and the station's nonce 2. -/
def peerPtk : List Byte := wpaDerivePTK c homeBss.pmk 1 homeBss.bssid 2 peer

/-- What the station builds its messages from. -/
def peerParams (msgType : MsgType) (rCounter : BitVec 64) : MsgParams where
  msgType := msgType
  wpa2 := true
  wepStatus := .aes
  groupCipher := .aes
  rCounter := rCounter
  ptk := peerPtk c
  defaultKeyIdx := 0
  keyNonce := 2
  txRsc := 0
  gtk := []
  rsnIe := homeBss.rsnIe

/-- A message of the station, as it arrives. -/
def peerFrame (msgType : MsgType) (rCounter : BitVec 64) : Event :=
  .eapolKey (frameOf peer (constructEapolMsg c (peerParams c msgType rCounter))) (homeEnv 3)

/-- The station in the MAC table of the access point, in a state of the handshake. -/
def peerEntry (wpaState : WpaState) (rCounter : BitVec 64) (sNonce : Nonce) (ptk : List Byte) :
    Entry :=
  { homeStation peer .wpa2Psk with
    wpaState := wpaState
    rCounter := rCounter
    aNonce := 1
    sNonce := sNonce
    ptk := ptk }

/-- The access point, with the station in its MAC table. -/
structure AtHome (s : Watched) (e : Entry) : Prop where
  entry : s.adapter.macTab.entry peer = some e
  bss : s.adapter.bssOf e = ⟨homeBss, true, false⟩

variable {s : Watched}

theorem AtHome.put {e e' : Entry} {ev : Event} {effects : List Effect}
    (hs : AtHome s e) (hstep : step c s.adapter ev = s.adapter.put e' effects)
    (haddr : e'.addr = peer) (hidx : e'.apidx = e.apidx) : AtHome (watchedStep c peer s ev) e' ∧
      (watchedStep c peer s ev).history = s.history.observeAll effects := by
  have hbss := hs.bss
  simp only [watchedStep, hstep, Adapter.put, haddr, if_true]
  refine ⟨⟨?_, ?_⟩, trivial⟩
  · rw [← haddr]
    exact MacTab.set_entry_self ..
  · simpa [Adapter.bssOf, hidx] using hbss

theorem AtHome.putBss {e e' : Entry} {ev : Event} {effects : List Effect}
    (hs : AtHome s e) (hstep : step c s.adapter ev = s.adapter.putBss homeBss e' effects)
    (haddr : e'.addr = peer) (hidx : e'.apidx = e.apidx) : AtHome (watchedStep c peer s ev) e' ∧
      (watchedStep c peer s ev).history = s.history.observeAll effects := by
  have hbss := hs.bss
  simp only [Adapter.bssOf, Bss.mk.injEq] at hbss
  refine AtHome.put c hs ?_ haddr hidx
  rw [hstep, Adapter.putBss, hidx, ← hbss.1, Function.update_eq_self]

theorem peerFrame_run {e : Entry} (msgType : MsgType) (rCounter : BitVec 64)
    (hs : AtHome s e) (hkind : e.kind = .client) (hmode : e.authMode = .wpa2Psk)
    (hcipher : e.wepStatus = .aes) (hassoc : e.assoc = true)
    (hstate : WpaState.initPsk.num ≤ e.wpaState.num) :
    step c s.adapter (peerFrame c msgType rCounter) =
      runAction c s.adapter e
        (frameOf peer (constructEapolMsg c (peerParams c msgType rCounter))) (homeEnv 3)
        msgType.action := by
  refine wpaEAPOLKeyAction_of_admitted c hs.entry ?_ ?_ (homeEnv 3)
  · refine admitted_constructEapolMsg c _ _ e (.inl hkind) (by simp [hmode, AuthMode.isWpa]) ?_
      hassoc hstate
    exact ⟨fun h => by simp [hcipher] at h, fun _ => rfl⟩
  · refine actionOf_constructEapolMsg c (peerParams c msgType rCounter) fun hm => ?_
    have htype : msgType = .pair2 := hm
    subst htype
    have hdata : (peerParams c .pair2 rCounter).builtKeyData c = rtmpInsertRSNIE homeBss.rsnIe := rfl
    rw [hdata]
    decide

/-- The access point before the handshake. -/
def homeStart : Watched :=
  .start (homeAdapter homeBss [homeStation peer .wpa2Psk]) peer

theorem home_msg1 :
    AtHome (watchedStep c peer homeStart (.eapolStart peer (homeEnv 1))) (peerEntry .ptkStart 1 0 []) ∧
      (watchedStep c peer homeStart (.eapolStart peer (homeEnv 1))).history = ⟨(0, 0), [], false⟩ := by
  have hat : AtHome homeStart (homeStation peer .wpa2Psk) := ⟨by decide, rfl⟩
  obtain ⟨msg1, hrun⟩ : ∃ msg1, step c homeStart.adapter (.eapolStart peer (homeEnv 1)) =
      homeStart.adapter.putBss homeBss (peerEntry .ptkStart 1 0 []) [.sent msg1] := ⟨_, rfl⟩
  exact AtHome.putBss c hat hrun rfl rfl

theorem home_msg2 (hs : AtHome s (peerEntry .ptkStart 1 0 [])) :
    AtHome (watchedStep c peer s (peerFrame c .pair2 1))
        (peerEntry .ptkInitNegotiating 2 2 (peerPtk c)) ∧
      (watchedStep c peer s (peerFrame c .pair2 1)).history = { s.history with nonces := (1, 2) } := by
  have hrun := peerFrame_run c .pair2 1 hs rfl rfl rfl rfl (by decide)
  set f := frameOf peer (constructEapolMsg c (peerParams c .pair2 1)) with hf
  have hnonce : f.packet.keyNonce = 2 := constructEapolMsg_keyNonce c _
  have hptk : withMsg2 c homeBss (peerEntry .ptkStart 1 0 []) f.packet =
      peerEntry .ptkStart 1 2 (peerPtk c) := by
    rw [withMsg2, ptkOfMsg2, hnonce]
    rfl
  have hlen : minMsgLen ≤ f.msgLen := minMsgLen_le_frameOf c _ _ (by
    rw [show (peerParams c .pair2 1).builtKeyData c = rtmpInsertRSNIE homeBss.rsnIe from rfl]
    decide)
  obtain ⟨msg3, haccept⟩ : ∃ msg3, peerPairMsg2Action c ⟨homeBss, true, false⟩
      (peerEntry .ptkStart 1 0 []) f (homeEnv 3) =
      (peerEntry .ptkInitNegotiating 2 2 (peerPtk c), [.derived homeBss.pmk 1 2, .sent msg3]) := by
    rcases peerPairMsg2Action_cases c ⟨homeBss, true, false⟩ (peerEntry .ptkStart 1 0 []) f (homeEnv 3)
      with ⟨hdrop, -⟩ | ⟨-, hrefused, -⟩ | ⟨-, -, msg3, hacc⟩
    · rcases hdrop with h | h | h | h
      · exact absurd rfl h
      · omega
      · exact absurd h (by decide)
      · exact absurd h (by decide)
    · refine absurd ⟨?_, rfl⟩ hrefused
      rw [hptk]
      exact messageOk_answer c rfl (by simp [peerParams]) rfl rfl rfl
    · rw [hptk, hnonce] at hacc
      exact ⟨msg3, hacc⟩
  have hstep : step c s.adapter (peerFrame c .pair2 1) =
      s.adapter.put (peerEntry .ptkInitNegotiating 2 2 (peerPtk c))
        [.derived homeBss.pmk 1 2, .sent msg3] := by
    rw [hrun]
    simp only [runAction, MsgType.action, hs.bss, haccept]
  exact AtHome.put c hs hstep rfl rfl

/-- The station may send message 4. -/
structure PeerReady (e : Entry) : Prop where
  addr : e.addr = peer
  kind : e.kind = .client
  authMode : e.authMode = .wpa2Psk
  wepStatus : e.wepStatus = .aes
  assoc : e.assoc = true
  wpaState : WpaState.ptkInitNegotiating.num ≤ e.wpaState.num
  rCounter : e.rCounter = 2
  ptk : e.ptk = peerPtk c

theorem home_msg4 {e : Entry} (hs : AtHome s e) (he : PeerReady c e) :
    ∃ e' key, AtHome (watchedStep c peer s (peerFrame c .pair4 2)) e' ∧ PeerReady c e' ∧
      e'.wpaState = .ptkInitDone ∧
      (watchedStep c peer s (peerFrame c .pair4 2)).history = s.history.observe (.installed key) := by
  have hwpa2 : e.authMode.isWpa2 = true := by
    rw [he.authMode]
    rfl
  have hstate : WpaState.initPsk.num ≤ e.wpaState.num :=
    le_trans (by decide) he.wpaState
  have hrun := peerFrame_run c .pair4 2 hs he.kind he.authMode he.wepStatus he.assoc hstate
  set f := frameOf peer (constructEapolMsg c (peerParams c .pair4 2))
  have hlen : minMsgLen ≤ f.msgLen := minMsgLen_le_frameOf c _ _ (by
    rw [show (peerParams c .pair4 2).builtKeyData c = [] from rfl]
    decide)
  rcases peerPairMsg4Action_cases c ⟨homeBss, true, false⟩ e f (homeEnv 3) with
    ⟨hrefused, -⟩ | ⟨-, pairwiseKey, asicKey, gtkState, rCounter, effects, hacc, hcounter, heff⟩
  · refine absurd ⟨he.kind, hlen, he.wpaState, rfl, ?_⟩ hrefused
    exact messageOk_answer c rfl (by simp [peerParams]) he.ptk (by rw [he.rCounter]; rfl) rfl
  obtain ⟨rest, rfl, hrest⟩ := heff
  rw [if_neg (by simp [he.authMode])] at hrest
  rw [hcounter hwpa2, cachedBss, if_neg (by simp [he.authMode])] at hacc
  have hstep : step c s.adapter (peerFrame c .pair4 2) = s.adapter.putBss homeBss
      (handshakeDone e pairwiseKey asicKey gtkState e.rCounter)
      ((wpaInstallPairwiseKey e true).2 ++ rest) := by
    rw [hrun]
    simp only [runAction, MsgType.action, hs.bss, hacc]
  obtain ⟨hat, hhist⟩ := AtHome.putBss c hs hstep he.addr rfl
  have hinstalled : ∃ key, (wpaInstallPairwiseKey e true).2 = [.installed key] := by
    simp [wpaInstallPairwiseKey, pairwiseKeyOf, he.wepStatus]
  obtain ⟨key, hkey⟩ := hinstalled
  refine ⟨_, key, hat, ?_, rfl, ?_⟩
  · have hdone : WpaState.ptkInitNegotiating.num ≤ WpaState.ptkInitDone.num := by decide
    exact ⟨he.addr, he.kind, he.authMode, he.wepStatus, he.assoc, hdone, he.rCounter, he.ptk⟩
  · rw [hhist, hkey]
    rcases hrest with rfl | ⟨msg1, rfl⟩ <;> rfl

theorem peerReady_negotiating : PeerReady c (peerEntry .ptkInitNegotiating 2 2 (peerPtk c)) :=
  ⟨rfl, rfl, rfl, rfl, rfl, le_refl _, rfl, rfl⟩

/-- The handshake up to the first message 4. -/
def handshakeRun : List Event :=
  [.eapolStart peer (homeEnv 1), peerFrame c .pair2 1, peerFrame c .pair4 2]

theorem home_handshake :
    ∃ e, AtHome (runEvents (watchedStep c peer) homeStart (handshakeRun c)) e ∧ PeerReady c e ∧
      (runEvents (watchedStep c peer) homeStart (handshakeRun c)).history =
        ⟨(1, 2), [(1, 2)], false⟩ := by
  obtain ⟨hat1, hhist1⟩ := home_msg1 c
  obtain ⟨hat2, hhist2⟩ := home_msg2 c hat1
  obtain ⟨e, key, hat3, hready, -, hhist3⟩ := home_msg4 c hat2 (peerReady_negotiating c)
  refine ⟨e, hat3, hready, ?_⟩
  refine hhist3.trans ?_
  rw [hhist2, hhist1]
  rfl

theorem handshakeRun_inTime :
    Along (watchedStep c peer) (fun s => InTime c peer s.adapter s.history) homeStart
      (handshakeRun c) := by
  obtain ⟨hat1, hhist1⟩ := home_msg1 c
  obtain ⟨hat2, hhist2⟩ := home_msg2 c hat1
  have hempty : ∀ h : KeyHistory, h.used = [] → ∀ rand, h.Unused rand := by
    intro h hused rand p hp
    rw [hused] at hp
    exact absurd hp not_mem_nil
  refine ⟨fun _ => hempty _ rfl _, fun _ => ⟨hempty _ (by rw [hhist1]) _, ?_⟩,
    fun _ => ⟨hempty _ (by rw [hhist2, hhist1]) _, ?_⟩, trivial⟩
  · intro e he
    obtain rfl : peerEntry .ptkStart 1 0 [] = e := some.inj (hat1.entry.symm.trans he)
    have haction : actionOf (constructEapolMsg c (peerParams c .pair2 1)) = some .pairMsg2 :=
      actionOf_constructEapolMsg c (peerParams c .pair2 1) fun _ => by
        rw [show (peerParams c .pair2 1).builtKeyData c = rtmpInsertRSNIE homeBss.rsnIe from rfl]
        decide
    rw [frameOf, haction]
    intro _
    decide
  · intro e he
    obtain rfl : peerEntry .ptkInitNegotiating 2 2 (peerPtk c) = e :=
      some.inj (hat2.entry.symm.trans he)
    have haction : actionOf (constructEapolMsg c (peerParams c .pair4 2)) = some .pairMsg4 :=
      actionOf_constructEapolMsg c (peerParams c .pair4 2) fun h => absurd h (by simp [peerParams])
    rw [frameOf, haction]
    intro _
    rfl

end RalinkSdk.Wpa
