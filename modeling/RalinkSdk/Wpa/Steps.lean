import RalinkSdk.Wpa.Adapter

/-!
# What each handler can do

One lemma for each handler: it drops the frame, or it goes one of a few ways, with the guard that
chooses the way.  The results about runs are derived from these.
-/

namespace RalinkSdk.Wpa

open Lib Crypt

variable (c : Crypto)

/-! ## Starting a handshake -/

/-- The calls that `WPAStart4WayHS` does not expect. -/
def StartRefused (b : Bss) (e : Entry) : Prop :=
  b.resetting ∨ e.kind ≠ .client ∨ b.inRange = false ∨
    WpaState.ptkStart.num < e.wpaState.num ∨ e.wpaState.num < WpaState.initPmk.num

/-- The entry with the nonce and the counter of a new handshake. -/
def begun (e : Entry) (env : Env) : Entry :=
  { e with rCounter := e.rCounter + 1, aNonce := env.rand }

/-- The BSS after the start of a handshake: a cached master key is copied. -/
def cachedKeyBss (m : Mbss) (e : Entry) : Mbss :=
  match if e.authMode = .wpa2 then e.pmkidCacheIdx else none with
  | none => m
  | some i => { m with pmk := (m.pmkidCache i).pmk }

/-- The master key that the start of a handshake takes from the cache. -/
def loadedKey (m : Mbss) (e : Entry) : List Effect :=
  match if e.authMode = .wpa2 then e.pmkidCacheIdx else none with
  | none => []
  | some i => [.loaded e.apidx (m.pmkidCache i).pmk]

theorem wpaStart4WayHS_cases (b : Bss) (e : Entry) (env : Env) :
    (StartRefused b e ∧ wpaStart4WayHS c b e env = (b.mbss, e, [])) ∨
    (¬ StartRefused b e ∧ b.mbss.wscEntry = some e.addr ∧
      wpaStart4WayHS c b e env = (b.mbss, { e with wpaState := .notUse }, [])) ∨
    (¬ StartRefused b e ∧ b.mbss.wscEntry ≠ some e.addr ∧ env.mpool e.addr = false ∧
      wpaStart4WayHS c b e env = (b.mbss, begun e env, [])) ∨
    (¬ StartRefused b e ∧ b.mbss.wscEntry ≠ some e.addr ∧ env.mpool e.addr = true ∧
      ∃ msg1, wpaStart4WayHS c b e env =
        (cachedKeyBss b.mbss e, { begun e env with wpaState := .ptkStart },
          loadedKey b.mbss e ++ [.sent msg1])) := by
  by_cases hrefused : StartRefused b e
  · refine .inl ⟨hrefused, ?_⟩
    unfold wpaStart4WayHS
    rcases hrefused with h | h | h | h
    · rw [if_pos h]
    · rw [if_pos h, ite_self]
    · rw [if_pos h, ite_self, ite_self]
    · rw [if_pos h, ite_self, ite_self, ite_self]
  -- none of the four guards holds
  have hgo : wpaStart4WayHS c b e env =
      if b.mbss.wscEntry = some e.addr then (b.mbss, { e with wpaState := .notUse }, [])
      else if env.mpool e.addr = false then (b.mbss, begun e env, [])
      else
        let msg1 := constructEapolMsg c { msgParams (begun e env) b.mbss.groupCipher .pair1 with
          keyNonce := env.rand }
        match if e.authMode = .wpa2 then e.pmkidCacheIdx else none with
        | none => (b.mbss, { begun e env with wpaState := .ptkStart }, [.sent msg1])
        | some i => ({ b.mbss with pmk := (b.mbss.pmkidCache i).pmk },
            { begun e env with wpaState := .ptkStart },
            [.loaded e.apidx (b.mbss.pmkidCache i).pmk,
              .sent (withPmkidKde msg1 (b.mbss.pmkidCache i).pmkid)]) := by
    have hrefused' := hrefused
    simp only [StartRefused, not_or] at hrefused'
    obtain ⟨h1, h2, h3, h4, h5⟩ := hrefused'
    unfold wpaStart4WayHS
    rw [if_neg h1, if_neg h2, if_neg h3, if_neg (by simp [h4, h5])]
    rfl
  rw [hgo]
  by_cases hwsc : b.mbss.wscEntry = some e.addr
  · exact .inr (.inl ⟨hrefused, hwsc, if_pos hwsc⟩)
  rw [if_neg hwsc]
  cases hmem : env.mpool e.addr with
  | false => exact .inr (.inr (.inl ⟨hrefused, hwsc, rfl, if_pos rfl⟩))
  | true =>
    refine .inr (.inr (.inr ⟨hrefused, hwsc, rfl, ?_⟩))
    rw [if_neg (by simp), cachedKeyBss, loadedKey]
    cases (if e.authMode = .wpa2 then e.pmkidCacheIdx else none : Option (Fin maxPmkidCount)) with
    | none => exact ⟨_, rfl⟩
    | some i => exact ⟨_, rfl⟩

theorem wpaStart2WayGroupHS_cases (b : Bss) (e : Entry) (env : Env) :
    wpaStart2WayGroupHS c b e env = (e, []) ∨
    ∃ msg1, wpaStart2WayGroupHS c b e env =
      ({ e with rCounter := e.rCounter + 1 }, [.sent msg1]) := by
  unfold wpaStart2WayGroupHS
  split_ifs
  · exact .inl rfl
  · exact .inl rfl
  · exact .inl rfl
  · exact .inr ⟨_, rfl⟩

/-! ## The authenticator -/

def ptkOfMsg2 (m : Mbss) (e : Entry) (p : EapolPacket) : List Byte :=
  wpaDerivePTK c m.pmk e.aNonce m.bssid p.keyNonce e.addr

/-- The entry with the nonce of message 2 and the PTK it makes. -/
def withMsg2 (m : Mbss) (e : Entry) (p : EapolPacket) : Entry :=
  { e with sNonce := p.keyNonce, ptk := ptkOfMsg2 c m e p }

/-- The frames that message 2 drops before it stores the nonce. -/
def Msg2Dropped (b : Bss) (e : Entry) (f : Elem) : Prop :=
  e.kind ≠ .client ∨ f.msgLen < minMsgLen ∨ e.wpaState.num < WpaState.ptkStart.num ∨
    b.inRange = false

/-- Message 2 is answered. -/
def Msg2Accepted (b : Bss) (e : Entry) (f : Elem) (env : Env) : Prop :=
  messageOk c (withMsg2 c b.mbss e f.packet) .pair2 f.packet env = true ∧ env.mpool e.addr = true

theorem peerPairMsg2Action_cases (b : Bss) (e : Entry) (f : Elem) (env : Env) :
    (Msg2Dropped b e f ∧ peerPairMsg2Action c b e f env = (e, [])) ∨
    (¬ Msg2Dropped b e f ∧ ¬ Msg2Accepted c b e f env ∧
      peerPairMsg2Action c b e f env =
        (withMsg2 c b.mbss e f.packet, [.derived b.mbss.pmk e.aNonce f.packet.keyNonce])) ∨
    (¬ Msg2Dropped b e f ∧ Msg2Accepted c b e f env ∧
      ∃ msg3, peerPairMsg2Action c b e f env =
        ({ withMsg2 c b.mbss e f.packet with
            wpaState := .ptkInitNegotiating
            rCounter := e.rCounter + 1 },
          [.derived b.mbss.pmk e.aNonce f.packet.keyNonce, .sent msg3])) := by
  by_cases hdrop : Msg2Dropped b e f
  · refine .inl ⟨hdrop, ?_⟩
    unfold peerPairMsg2Action
    rcases hdrop with h | h | h | h
    · rw [if_pos h]
    · rw [if_pos h, ite_self]
    · rw [if_pos h, ite_self, ite_self]
    · rw [if_pos h, ite_self, ite_self, ite_self]
  have hdrop' := hdrop
  simp only [Msg2Dropped, not_or] at hdrop'
  obtain ⟨h1, h2, h3, h4⟩ := hdrop'
  have hgo : peerPairMsg2Action c b e f env =
      if messageOk c (withMsg2 c b.mbss e f.packet) .pair2 f.packet env = false then
        (withMsg2 c b.mbss e f.packet, [.derived b.mbss.pmk e.aNonce f.packet.keyNonce])
      else if env.mpool e.addr = false then
        (withMsg2 c b.mbss e f.packet, [.derived b.mbss.pmk e.aNonce f.packet.keyNonce])
      else
        let e3 : Entry := { withMsg2 c b.mbss e f.packet with
          wpaState := .ptkInitNegotiating
          rCounter := e.rCounter + 1 }
        (e3, [.derived b.mbss.pmk e.aNonce f.packet.keyNonce,
          .sent (constructEapolMsg c { msgParams e3 b.mbss.groupCipher .pair3 with
            defaultKeyIdx := b.mbss.defaultKeyId
            keyNonce := e3.aNonce
            txRsc := env.txTsc
            gtk := b.mbss.gtk
            rsnIe := rsnIeFor b.mbss e3 })]) := by
    unfold peerPairMsg2Action
    rw [if_neg h1, if_neg h2, if_neg h3, if_neg h4]
    rfl
  rw [hgo]
  cases hok : messageOk c (withMsg2 c b.mbss e f.packet) .pair2 f.packet env with
  | false => exact .inr (.inl ⟨hdrop, by simp [Msg2Accepted, hok], if_pos rfl⟩)
  | true =>
    rw [if_neg (by simp)]
    cases hmem : env.mpool e.addr with
    | false => exact .inr (.inl ⟨hdrop, by simp [Msg2Accepted, hmem], if_pos rfl⟩)
    | true => exact .inr (.inr ⟨hdrop, ⟨hok, hmem⟩, _, if_neg (by simp)⟩)

/-- Message 4 passes the checks of its handler. -/
def Msg4Accepted (b : Bss) (e : Entry) (f : Elem) (env : Env) : Prop :=
  e.kind = .client ∧ minMsgLen ≤ f.msgLen ∧ WpaState.ptkInitNegotiating.num ≤ e.wpaState.num ∧
    b.inRange = true ∧ messageOk c e .pair4 f.packet env = true

theorem wpaInstallPairwiseKey_eq (e : Entry) (bAE : Bool) :
    ∃ pairwiseKey asicKey, (wpaInstallPairwiseKey e bAE).1 =
      { e with pairwiseKey := pairwiseKey, asicKey := asicKey } := by
  unfold wpaInstallPairwiseKey
  cases pairwiseKeyOf e bAE with
  | none => exact ⟨_, _, rfl⟩
  | some key => exact ⟨_, _, rfl⟩

theorem wpaInstallPairwiseKey_effects (e : Entry) (bAE : Bool) :
    (wpaInstallPairwiseKey e bAE).2 = [] ∨
      ∃ key, (wpaInstallPairwiseKey e bAE).2 = [.installed key] := by
  unfold wpaInstallPairwiseKey
  cases pairwiseKeyOf e bAE with
  | none => exact .inl rfl
  | some key => exact .inr ⟨key, rfl⟩

/-- The entry of a station whose handshake is over. -/
def handshakeDone (e : Entry) (pairwiseKey : CipherKey) (asicKey : Option CipherKey)
    (gtkState : GtkState) (rCounter : BitVec 64) : Entry :=
  { e with
    pairwiseKey := pairwiseKey
    asicKey := asicKey
    acceptAll := true
    wpaState := .ptkInitDone
    portSecured := true
    gtkState := gtkState
    rCounter := rCounter }

/-- The BSS after message 4: the master key is cached for a station of WPA2-Enterprise. -/
def cachedBss (m : Mbss) (e : Entry) (env : Env) : Mbss :=
  if e.authMode = .wpa2 then rtmpAddPMKIDCache m e.addr (pmkidOf c m e.addr) m.pmk env.now else m

/-- What message 4 does besides: the key, then the cache or the group handshake. -/
def Msg4Effects (m : Mbss) (e : Entry) (effects : List Effect) : Prop :=
  ∃ rest, effects = (wpaInstallPairwiseKey e true).2 ++ rest ∧
    if e.authMode = .wpa2 then rest = [.cached e.addr m.pmk]
    else rest = [] ∨ ∃ msg1, rest = [.sent msg1]

theorem peerPairMsg4Action_cases (b : Bss) (e : Entry) (f : Elem) (env : Env) :
    (¬ Msg4Accepted c b e f env ∧ peerPairMsg4Action c b e f env = (b.mbss, e, [])) ∨
    (Msg4Accepted c b e f env ∧ ∃ pairwiseKey asicKey gtkState rCounter effects,
      peerPairMsg4Action c b e f env =
        (cachedBss c b.mbss e env, handshakeDone e pairwiseKey asicKey gtkState rCounter, effects) ∧
      (e.authMode.isWpa2 = true → rCounter = e.rCounter) ∧ Msg4Effects b.mbss e effects) := by
  by_cases hacc : Msg4Accepted c b e f env
  · refine .inr ⟨hacc, ?_⟩
    obtain ⟨hkind, hlen, hstate, hrange, hok⟩ := hacc
    obtain ⟨pairwiseKey, asicKey, hkey⟩ := wpaInstallPairwiseKey_eq e true
    unfold peerPairMsg4Action
    rw [if_neg (by simp [hkind]), if_neg (by omega), if_neg (by omega), if_neg (by simp [hrange]),
      if_neg (by simp [hok])]
    dsimp only
    rw [hkey]
    by_cases hwpa2 : e.authMode.isWpa2 = true
    · rw [if_pos hwpa2]
      by_cases hent : e.authMode = .wpa2
      · rw [if_pos hent, cachedBss, if_pos hent]
        exact ⟨_, _, _, _, _, rfl, fun _ => rfl, _, rfl, by rw [if_pos hent]⟩
      · rw [if_neg hent, cachedBss, if_neg hent]
        exact ⟨_, _, _, _, _, rfl, fun _ => rfl, [], (List.append_nil _).symm, by
          rw [if_neg hent]
          exact .inl rfl⟩
    · have hent : e.authMode ≠ .wpa2 := by
        intro h
        simp [h, AuthMode.isWpa2] at hwpa2
      rw [if_neg hwpa2, cachedBss, if_neg hent]
      set done := handshakeDone e pairwiseKey asicKey e.gtkState e.rCounter
      obtain ⟨rCounter, rest, hgroup, hrest⟩ : ∃ rCounter rest,
          wpaStart2WayGroupHS c b done env = ({ done with rCounter := rCounter }, rest) ∧
          (rest = [] ∨ ∃ msg1, rest = [.sent msg1]) := by
        rcases wpaStart2WayGroupHS_cases c b done env with h | ⟨msg1, h⟩
        · exact ⟨_, _, h, .inl rfl⟩
        · exact ⟨_, _, h, .inr ⟨msg1, rfl⟩⟩
      refine ⟨pairwiseKey, asicKey, e.gtkState, rCounter, (wpaInstallPairwiseKey e true).2 ++ rest,
        ?_, fun h => absurd h hwpa2, rest, rfl, by rwa [if_neg hent]⟩
      change (b.mbss, (wpaStart2WayGroupHS c b done env).1,
        (wpaInstallPairwiseKey e true).2 ++ (wpaStart2WayGroupHS c b done env).2) = _
      rw [hgroup]
      rfl
  · refine .inl ⟨hacc, ?_⟩
    unfold peerPairMsg4Action
    split_ifs with h1 h2 h3 h4 h5
    all_goals try rfl
    all_goals
      refine absurd ⟨?_, ?_, ?_, ?_, ?_⟩ hacc
      · simpa using h1
      · omega
      · omega
      · simpa using h4
      · simpa using h5

theorem peerGroupMsg2Action_cases (b : Bss) (e : Entry) (f : Elem) (env : Env) :
    peerGroupMsg2Action c b e f env = (e, []) ∨
    (messageOk c e .group2 f.packet env = true ∧
      peerGroupMsg2Action c b e f env = ({ e with gtkState := .established }, [])) := by
  unfold peerGroupMsg2Action
  split_ifs with h1 h2 h3 h4 h5
  · exact .inl rfl
  · exact .inl rfl
  · exact .inl rfl
  · exact .inl rfl
  · exact .inl rfl
  · exact .inr ⟨by simpa using h5, rfl⟩

/-! ## The supplicant -/

/-- The entry with the nonces and the PTK of message 1. -/
def withMsg1 (s : Supplicant) (e : Entry) (p : EapolPacket) (env : Env) : Entry :=
  { e with
    rCounter := p.replayCounter
    aNonce := p.keyNonce
    sNonce := env.rand
    ptk := wpaDerivePTK c s.pmk p.keyNonce e.addr env.rand s.currentAddress
    wpaState := .ptkInitNegotiating }

theorem peerPairMsg1Action_cases (s : Supplicant) (e : Entry) (f : Elem) (env : Env) :
    peerPairMsg1Action c s e f env = (e, []) ∨
    ∃ rest, (rest = [] ∨ ∃ msg2, rest = [.sent msg2]) ∧
      peerPairMsg1Action c s e f env =
        (withMsg1 c s e f.packet env, .derived s.pmk f.packet.keyNonce env.rand :: rest) := by
  unfold peerPairMsg1Action
  dsimp only
  split_ifs
  · exact .inl rfl
  · exact .inl rfl
  · exact .inr ⟨[], .inl rfl, rfl⟩
  · exact .inr ⟨_, .inr ⟨_, rfl⟩, rfl⟩

/-- Message 3 passes the checks of its handler: the entry's PTK is installed. -/
def Msg3Accepted (s : Supplicant) (e : Entry) (f : Elem) (env : Env) : Prop :=
  minMsgLen ≤ f.msgLen ∧ (∃ s', supplicantSanity c s e .pair3 f.packet env = .accepted s') ∧
    e.aNonce = f.packet.keyNonce ∧ env.mpool e.addr = true

theorem peerPairMsg3Action_cases (s : Supplicant) (e : Entry) (f : Elem) (env : Env) :
    (¬ Msg3Accepted c s e f env ∧ ∃ s' rCounter effects,
      peerPairMsg3Action c s e f env = (s', { e with rCounter := rCounter }, effects) ∧
      (effects = [] ∨ effects = [.overflow])) ∨
    (Msg3Accepted c s e f env ∧ ∃ s' pairwiseKey asicKey acceptAll portSecured installed msg4,
      peerPairMsg3Action c s e f env =
        (s', { e with
          rCounter := f.packet.replayCounter
          pairwiseKey := pairwiseKey
          asicKey := asicKey
          acceptAll := acceptAll
          wpaState := .ptkInitDone
          portSecured := portSecured }, installed ++ [.sent msg4]) ∧
      (installed = [] ∨ ∃ key, installed = [.installed key])) := by
  unfold peerPairMsg3Action
  by_cases hlen : f.msgLen < minMsgLen
  · rw [if_pos hlen]
    exact .inl ⟨fun h => absurd h.1 (by omega), _, e.rCounter, _, rfl, .inl rfl⟩
  rw [if_neg hlen]
  cases hs : supplicantSanity c s e .pair3 f.packet env with
  | refused => exact .inl ⟨fun h => by simp [Msg3Accepted, hs] at h, _, e.rCounter, _, rfl, .inl rfl⟩
  | overflow => exact .inl ⟨fun h => by simp [Msg3Accepted, hs] at h, _, e.rCounter, _, rfl, .inr rfl⟩
  | accepted s' =>
    dsimp only
    unfold acceptPairMsg3
    dsimp only
    by_cases hnonce : e.aNonce = f.packet.keyNonce
    · rw [if_neg (by simp [hnonce])]
      cases hmem : env.mpool e.addr with
      | false => exact .inl ⟨fun h => by simp [Msg3Accepted, hmem] at h, _, _, _, rfl, .inl rfl⟩
      | true =>
        rw [if_neg (by simp)]
        obtain ⟨pairwiseKey, asicKey, hkey⟩ := wpaInstallPairwiseKey_eq
          { e with rCounter := f.packet.replayCounter, wpaState := .ptkInitDone } false
        have heff := wpaInstallPairwiseKey_effects
          { e with rCounter := f.packet.replayCounter, wpaState := .ptkInitDone } false
        refine .inr ⟨⟨by omega, ⟨s', hs⟩, hnonce, hmem⟩, ?_⟩
        rw [hkey]
        split_ifs
        · exact ⟨_, _, _, _, _, _, _, rfl, heff⟩
        · exact ⟨_, _, _, _, _, _, _, rfl, heff⟩
    · rw [if_pos hnonce]
      exact .inl ⟨fun h => absurd h.2.2.1 hnonce, _, _, _, rfl, .inl rfl⟩

theorem peerGroupMsg1Action_cases (s : Supplicant) (e : Entry) (f : Elem) (env : Env) :
    ∃ s' rCounter portSecured acceptAll effects,
      peerGroupMsg1Action c s e f env =
        (s', { e with rCounter := rCounter, portSecured := portSecured, acceptAll := acceptAll },
          effects) ∧
      (effects = [] ∨ effects = [.overflow] ∨ ∃ msg2, effects = [.sent msg2]) := by
  unfold peerGroupMsg1Action
  cases supplicantSanity c s e .group1 f.packet env with
  | refused => exact ⟨_, _, _, _, _, rfl, .inl rfl⟩
  | overflow => exact ⟨_, _, _, _, _, rfl, .inr (.inl rfl)⟩
  | accepted s' =>
    dsimp only
    split_ifs
    · exact ⟨_, _, _, _, _, rfl, .inl rfl⟩
    · exact ⟨_, _, _, _, _, rfl, .inr (.inr ⟨_, rfl⟩)⟩

end RalinkSdk.Wpa
