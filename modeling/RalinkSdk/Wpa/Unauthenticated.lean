import RalinkSdk.Wpa.Steps

/-!
# Frames that do not authenticate

What `WpaEAPOLKeyAction` does with a frame of a station whose MIC or replay counter is wrong.  Most
branches check both before they write.  Three do not: a report of a MIC failure, a request for a
new key, and message 2, whose PTK is stored before it is checked.
-/

namespace RalinkSdk.Wpa

open Lib Crypt Function

/-! ## Writing back what was read -/

theorem MacTab.ext' {t t' : MacTab} (h : t.entry = t'.entry) : t = t' := by
  cases t
  cases t'
  cases h
  rfl

theorem MacTab.set_self {t : MacTab} {e : Entry} (h : t.entry e.addr = some e) : t.set e = t := by
  apply MacTab.ext'
  change update t.entry e.addr (some e) = t.entry
  rw [← h, update_eq_self]

theorem Adapter.put_self {ad : Adapter} {e : Entry} (h : ad.macTab.entry e.addr = some e)
    (effects : List Effect) : (ad.put e effects).1 = ad := by
  rw [Adapter.put, MacTab.set_self h]

theorem Adapter.putBss_self {ad : Adapter} {e : Entry} (h : ad.macTab.entry e.addr = some e)
    (effects : List Effect) : (ad.putBss (ad.mbss e.apidx) e effects).1 = ad := by
  rw [Adapter.putBss, update_eq_self]
  exact Adapter.put_self h effects

/-! ## The property -/

/-- The fields of a BSS that make up its group key. -/
structure SameGroupKey (m m' : Mbss) : Prop where
  gNonce : m'.gNonce = m.gNonce
  gtk : m'.gtk = m.gtk
  defaultKeyId : m'.defaultKeyId = m.defaultKeyId
  sharedKey : m'.sharedKey = m.sharedKey

/-- The fields of an entry that a frame must not change. -/
structure SameSecurity (e e' : Entry) : Prop where
  ptk : e'.ptk = e.ptk
  sNonce : e'.sNonce = e.sNonce
  wpaState : e'.wpaState = e.wpaState
  gtkState : e'.gtkState = e.gtkState
  rCounter : e'.rCounter = e.rCounter
  portSecured : e'.portSecured = e.portSecured
  acceptAll : e'.acceptAll = e.acceptAll
  pairwiseKey : e'.pairwiseKey = e.pairwiseKey
  asicKey : e'.asicKey = e.asicKey

/-- The entry, the group keys and the countermeasures are as they were. -/
structure Unchanged (ad ad' : Adapter) (e : Entry) : Prop where
  entry : ∃ e', ad'.macTab.entry e.addr = some e' ∧ SameSecurity e e'
  groupKey : ∀ i, SameGroupKey (ad.mbss i) (ad'.mbss i)
  micFailureCounter : ad'.micFailureCounter = ad.micFailureCounter
  cmTimerRunning : ad'.cmTimerRunning = ad.cmTimerRunning
  banClass3Data : ad'.banClass3Data = ad.banClass3Data

theorem SameSecurity.refl (e : Entry) : SameSecurity e e :=
  ⟨rfl, rfl, rfl, rfl, rfl, rfl, rfl, rfl, rfl⟩

theorem SameGroupKey.refl (m : Mbss) : SameGroupKey m m := ⟨rfl, rfl, rfl, rfl⟩

theorem Unchanged.refl {ad : Adapter} {e : Entry} (h : ad.macTab.entry e.addr = some e) :
    Unchanged ad ad e :=
  ⟨⟨e, h, .refl e⟩, fun _ => .refl _, rfl, rfl, rfl⟩

theorem unchanged_put_iff (ad : Adapter) (e e' : Entry) (haddr : e'.addr = e.addr)
    (effects : List Effect) : Unchanged ad (ad.put e' effects).1 e ↔ SameSecurity e e' := by
  have hentry : (ad.put e' effects).1.macTab.entry e.addr = some e' := by
    rw [← haddr]
    exact MacTab.set_entry_self ..
  constructor
  · intro h
    obtain ⟨x, hx, hsame⟩ := h.entry
    rw [hentry] at hx
    obtain rfl := Option.some.inj hx
    exact hsame
  · intro h
    exact ⟨⟨e', hentry, h⟩, fun _ => .refl _, rfl, rfl, rfl⟩

theorem unchanged_putBss_iff (ad : Adapter) (e e' : Entry) {m : Mbss} (haddr : e'.addr = e.addr)
    (hm : SameGroupKey (ad.mbss e'.apidx) m) (effects : List Effect) :
    Unchanged ad (ad.putBss m e' effects).1 e ↔ SameSecurity e e' := by
  rw [← unchanged_put_iff ad e e' haddr effects]
  have hgroup : ∀ i, SameGroupKey (ad.mbss i) ((ad.putBss m e' effects).1.mbss i) := by
    intro i
    rcases eq_or_ne i e'.apidx with rfl | hi
    · simpa [Adapter.putBss, Adapter.put] using hm
    · simpa [Adapter.putBss, Adapter.put, hi] using SameGroupKey.refl (ad.mbss i)
  constructor
  · intro h
    exact ⟨h.entry, fun _ => .refl _, rfl, rfl, rfl⟩
  · intro h
    exact ⟨h.entry, hgroup, rfl, rfl, rfl⟩

variable (c : Crypto)

/-! ## The condition -/

/-- The PTK with which a frame is checked. -/
def ptkFor (ad : Adapter) (e : Entry) (p : EapolPacket) : List Byte :=
  if actionOf p = some .pairMsg2 then ptkOfMsg2 c (ad.mbss e.apidx) e p else e.ptk

/-- The MIC does not verify, or the replay counter is not the one that was sent last. -/
def Unauthenticated (ad : Adapter) (e : Entry) (p : EapolPacket) : Prop :=
  micOk c (ptkFor c ad e p) p = false ∨ p.replayCounter ≠ e.rCounter

/-- Message 2 is dropped before its nonce is stored, or it stores what is there. -/
def Msg2Harmless (b : Bss) (e : Entry) (f : Elem) : Prop :=
  Msg2Dropped b e f ∨ (f.packet.keyNonce = e.sNonce ∧ ptkOfMsg2 c b.mbss e f.packet = e.ptk)

/-- A request finds the station without a key, its port closed, in the state and with the counter
    of a handshake that has just begun. -/
def RequestHarmless (b : Bss) (e : Entry) (env : Env) : Prop :=
  e.pairwiseKey = .zero ∧ e.asicKey = none ∧ e.gtkState = .negotiating ∧ e.acceptAll = false ∧
    e.portSecured = false ∧
    if b.resetting ∨ b.inRange = false ∨
        WpaState.ptkStart.num < (clearedEntry e).wpaState.num then
      e.wpaState = (clearedEntry e).wpaState ∧ e.rCounter = 0
    else if b.mbss.wscEntry = some e.addr then False
    else e.rCounter = 1 ∧
      e.wpaState = if env.mpool e.addr then .ptkStart else (clearedEntry e).wpaState

/-- The frame is dropped, or its branch checks it, or there is nothing to change. -/
def Harmless (ad : Adapter) (e : Entry) (f : Elem) (env : Env) : Prop :=
  admitted e f = false ∨
    match actionOf f.packet with
    | some .counterMeasure =>
      e.wpaState.num < WpaState.ptkInitDone.num ∨ e.gtkState ≠ .established
    | some .groupKeyRequest => False
    | some .pairwiseKeyRequest => RequestHarmless (ad.bssOf e) e env
    | some .pairMsg2 => Msg2Harmless c (ad.bssOf e) e f
    | _ => True

/-! ## The branches -/

section

variable {ad : Adapter} {e : Entry} {f : Elem} {env : Env}

theorem messageOk_of_unauthenticated {e' : Entry} {msgType : MsgType}
    (hauth : msgType.forSupplicant = false) (hptk : e'.ptk = ptkFor c ad e f.packet)
    (hcounter : e'.rCounter = e.rCounter) (hbad : Unauthenticated c ad e f.packet) :
    messageOk c e' msgType f.packet env = false := by
  have hne : msgType ≠ .pair1 := by
    rintro rfl
    exact absurd hauth (by decide)
  rcases hbad with hmic | hreplay
  · simp [messageOk, hne, hptk, hmic]
  · simp [messageOk, replayOk, hauth, hcounter, hreplay]

theorem pairMsg4_unchanged (h : ad.macTab.entry e.addr = some e)
    (haction : actionOf f.packet = some .pairMsg4) (hbad : Unauthenticated c ad e f.packet) :
    Unchanged ad (runAction c ad e f env .pairMsg4).1 e := by
  have hrefused : messageOk c e .pair4 f.packet env = false :=
    messageOk_of_unauthenticated c rfl (by simp [ptkFor, haction]) rfl hbad
  rcases peerPairMsg4Action_cases c (ad.bssOf e) e f env with ⟨-, hsame⟩ | ⟨hacc, -⟩
  · simp only [runAction, hsame]
    rw [Adapter.bssOf, Adapter.putBss_self h]
    exact .refl h
  · exact absurd hacc.2.2.2.2 (by simp [hrefused])

theorem groupMsg2_unchanged (h : ad.macTab.entry e.addr = some e)
    (haction : actionOf f.packet = some .groupMsg2) (hbad : Unauthenticated c ad e f.packet) :
    Unchanged ad (runAction c ad e f env .groupMsg2).1 e := by
  have hrefused : messageOk c e .group2 f.packet env = false :=
    messageOk_of_unauthenticated c rfl (by simp [ptkFor, haction]) rfl hbad
  rcases peerGroupMsg2Action_cases c (ad.bssOf e) e f env with hsame | ⟨hok, -⟩
  · simp only [runAction, hsame]
    rw [Adapter.put_self h]
    exact .refl h
  · exact absurd hok (by simp [hrefused])

theorem pairMsg2_unchanged_iff (h : ad.macTab.entry e.addr = some e)
    (haction : actionOf f.packet = some .pairMsg2) (hbad : Unauthenticated c ad e f.packet) :
    Unchanged ad (runAction c ad e f env .pairMsg2).1 e ↔ Msg2Harmless c (ad.bssOf e) e f := by
  have hrefused : messageOk c (withMsg2 c (ad.mbss e.apidx) e f.packet) .pair2 f.packet env = false :=
    messageOk_of_unauthenticated c (e := e) rfl (by simp [withMsg2, ptkFor, haction]) rfl hbad
  rcases peerPairMsg2Action_cases c (ad.bssOf e) e f env with
    ⟨hdrop, hsame⟩ | ⟨hdrop, -, hstored⟩ | ⟨-, hacc, -⟩
  · simp only [runAction, hsame]
    rw [Adapter.put_self h]
    exact iff_of_true (.refl h) (.inl hdrop)
  · simp only [runAction, hstored]
    rw [unchanged_put_iff ad e (withMsg2 c (ad.bssOf e).mbss e f.packet) rfl]
    constructor
    · intro hs
      exact .inr ⟨hs.sNonce, hs.ptk⟩
    · intro hm
      rcases hm with hm | ⟨hnonce, hptk⟩
      · exact absurd hm hdrop
      · exact ⟨hptk, hnonce, rfl, rfl, rfl, rfl, rfl, rfl, rfl⟩
  · exact absurd hacc.1 (by simp [Adapter.bssOf, hrefused])

theorem handleCounterMeasure_counter (hkind : e.kind = .client)
    (hdone : ¬ (e.wpaState.num < WpaState.ptkInitDone.num ∨ e.gtkState ≠ .established)) :
    (handleCounterMeasure ad e env).micFailureCounter = ad.micFailureCounter + 1 := by
  unfold handleCounterMeasure
  rw [if_neg (by simp [hkind]), if_neg hdone]
  dsimp only
  split_ifs <;> rfl

theorem counterMeasure_unchanged_iff (h : ad.macTab.entry e.addr = some e)
    (hkind : e.kind = .client) : Unchanged ad (runAction c ad e f env .counterMeasure).1 e ↔
      e.wpaState.num < WpaState.ptkInitDone.num ∨ e.gtkState ≠ .established := by
  simp only [runAction, Adapter.quiet]
  by_cases hignored : e.wpaState.num < WpaState.ptkInitDone.num ∨ e.gtkState ≠ .established
  · have hsame : handleCounterMeasure ad e env = ad := by
      rw [handleCounterMeasure, if_neg (by simp [hkind]), if_pos hignored]
    rw [hsame]
    exact iff_of_true (.refl h) hignored
  · refine iff_of_false ?_ hignored
    intro hunchanged
    have hcounter := hunchanged.micFailureCounter
    rw [handleCounterMeasure_counter hkind hignored] at hcounter
    simp at hcounter

theorem groupKeyRequest_changes : ¬ Unchanged ad (runAction c ad e f env .groupKeyRequest).1 e := by
  intro hunchanged
  have hid := (hunchanged.groupKey e.apidx).defaultKeyId
  simp only [runAction, requestGroupKey, newGroupKey, update_self] at hid
  split_ifs at hid <;> omega

theorem cachedKeyBss_groupKey (m : Mbss) (x : Entry) : SameGroupKey m (cachedKeyBss m x) := by
  unfold cachedKeyBss
  split <;> exact ⟨rfl, rfl, rfl, rfl⟩

theorem sameSecurity_cleared_iff (e : Entry) (wpaState : WpaState) (rCounter : BitVec 64)
    (aNonce : Nonce) :
    SameSecurity e { clearedEntry e with
      wpaState := wpaState, rCounter := rCounter, aNonce := aNonce } ↔
    e.pairwiseKey = .zero ∧ e.asicKey = none ∧ e.gtkState = .negotiating ∧ e.acceptAll = false ∧
      e.portSecured = false ∧ e.wpaState = wpaState ∧ e.rCounter = rCounter := by
  constructor
  · intro h
    exact ⟨h.pairwiseKey.symm, h.asicKey.symm, h.gtkState.symm, h.acceptAll.symm,
      h.portSecured.symm, h.wpaState.symm, h.rCounter.symm⟩
  · rintro ⟨h1, h2, h3, h4, h5, h6, h7⟩
    exact ⟨rfl, rfl, h6.symm, h3.symm, h7.symm, h5.symm, h4.symm, h1.symm, h2.symm⟩

theorem clearedEntry_not_early (hstate : WpaState.initPsk.num ≤ e.wpaState.num) :
    ¬ (clearedEntry e).wpaState.num < WpaState.initPmk.num := by
  have hle : WpaState.initPmk.num ≤ WpaState.initPsk.num := by decide
  unfold clearedEntry
  dsimp only
  split_ifs
  · exact lt_irrefl _
  · exact not_lt.mpr hle
  · exact not_lt.mpr (hle.trans hstate)

theorem pairwiseKeyRequest_unchanged_iff (hkind : e.kind = .client)
    (hstate : WpaState.initPsk.num ≤ e.wpaState.num) :
    Unchanged ad (runAction c ad e f env .pairwiseKeyRequest).1 e ↔
      RequestHarmless (ad.bssOf e) e env := by
  have hrefused_iff : StartRefused (ad.bssOf e) (clearedEntry e) ↔
      (ad.bssOf e).resetting ∨ (ad.bssOf e).inRange = false ∨
        WpaState.ptkStart.num < (clearedEntry e).wpaState.num := by
    simp [StartRefused, clearedEntry_not_early hstate,
      show (clearedEntry e).kind = .client from hkind]
  have hgroup := cachedKeyBss_groupKey (ad.mbss e.apidx) (clearedEntry e)
  simp only [runAction, start4WayHS, show ad.bssOf (clearedEntry e) = ad.bssOf e from rfl,
    RequestHarmless]
  rcases wpaStart4WayHS_cases c (ad.bssOf e) (clearedEntry e) env with
    ⟨hrefused, hrun⟩ | ⟨hrefused, hwsc, hrun⟩ | ⟨hrefused, hwsc, hmem, hrun⟩ |
      ⟨hrefused, hwsc, hmem, msg1, hrun⟩
  · rw [hrun]
    rw [if_pos (hrefused_iff.mp hrefused)]
    refine (unchanged_putBss_iff ad e (clearedEntry e) rfl (.refl _) []).trans ?_
    exact sameSecurity_cleared_iff e _ 0 e.aNonce
  · rw [hrun, if_neg (mt hrefused_iff.mpr hrefused),
      if_pos (show (ad.bssOf e).mbss.wscEntry = some e.addr from hwsc)]
    refine (unchanged_putBss_iff ad e { clearedEntry e with wpaState := .notUse } rfl (.refl _) []).trans ?_
    refine (sameSecurity_cleared_iff e .notUse 0 e.aNonce).trans ?_
    -- the frame was admitted, so the entry is not in this state
    refine iff_of_false ?_ fun h => h.2.2.2.2.2
    rintro ⟨-, -, -, -, -, hnot, -⟩
    rw [hnot] at hstate
    exact absurd hstate (by decide)
  · rw [hrun, if_neg (mt hrefused_iff.mpr hrefused),
      if_neg (show (ad.bssOf e).mbss.wscEntry ≠ some e.addr from hwsc)]
    have hmem' : env.mpool e.addr = false := hmem
    refine (unchanged_putBss_iff ad e (begun (clearedEntry e) env) rfl (.refl _) []).trans ?_
    refine (sameSecurity_cleared_iff e (clearedEntry e).wpaState 1 env.rand).trans ?_
    rw [hmem', if_neg Bool.false_ne_true, and_comm (a := e.rCounter = 1)]
  · rw [hrun, if_neg (mt hrefused_iff.mpr hrefused),
      if_neg (show (ad.bssOf e).mbss.wscEntry ≠ some e.addr from hwsc)]
    have hmem' : env.mpool e.addr = true := hmem
    refine (unchanged_putBss_iff ad e
      { begun (clearedEntry e) env with wpaState := .ptkStart } rfl hgroup _).trans ?_
    refine (sameSecurity_cleared_iff e .ptkStart 1 env.rand).trans ?_
    rw [hmem', if_pos rfl, and_comm (a := e.rCounter = 1)]

end

/-! ## Main result -/

/-- **Frames that do not authenticate**: a frame of a station whose MIC does not verify under the
    PTK it is checked with, or whose replay counter is not the one sent last, leaves the entry, the
    group keys and the countermeasures as they were exactly when it is harmless. -/
theorem unauthenticated_unchanged_iff (ad : Adapter) (e : Entry) (f : Elem) (env : Env)
    (he : ad.macTab.entry f.addr2 = some e) (hkind : e.kind = .client)
    (hbad : Unauthenticated c ad e f.packet) :
    Unchanged ad (wpaEAPOLKeyAction c ad f env).1 e ↔ Harmless c ad e f env := by
  have h : ad.macTab.entry e.addr = some e := by rw [ad.macTab.addr_eq _ _ he, he]
  unfold wpaEAPOLKeyAction Harmless
  rw [he]
  dsimp only
  by_cases hadm : admitted e f = false
  · rw [if_pos hadm]
    exact iff_of_true (.refl h) (.inl hadm)
  rw [if_neg hadm, or_iff_right hadm]
  cases haction : actionOf f.packet with
  | none => exact iff_of_true (.refl h) trivial
  | some action =>
    cases action with
    | pairMsg1 => exact iff_of_true (by simpa [runAction, hkind, Adapter.quiet] using .refl h) trivial
    | pairMsg2 => exact pairMsg2_unchanged_iff c h haction hbad
    | pairMsg3 => exact iff_of_true (by simpa [runAction, hkind, Adapter.quiet] using .refl h) trivial
    | pairMsg4 => exact iff_of_true (pairMsg4_unchanged c h haction hbad) trivial
    | groupMsg1 => exact iff_of_true (by simpa [runAction, hkind, Adapter.quiet] using .refl h) trivial
    | groupMsg2 => exact iff_of_true (groupMsg2_unchanged c h haction hbad) trivial
    | counterMeasure => exact counterMeasure_unchanged_iff c h hkind
    | groupKeyRequest => exact iff_of_false (groupKeyRequest_changes c) id
    | pairwiseKeyRequest =>
      refine pairwiseKeyRequest_unchanged_iff c hkind ?_
      simp only [admitted, Bool.not_eq_false, Bool.and_eq_true, decide_eq_true_eq] at hadm
      exact hadm.2

/-- A station whose handshakes are over. -/
def keyedStation : Entry :=
  { homeStation 0x001018000002 .wpa2Psk with
    wpaState := .ptkInitDone
    gtkState := .established
    portSecured := true
    acceptAll := true
    rCounter := 2 }

/-- A frame from that station, without a nonce, a MIC or key data. -/
def bareFrame (keyInfo : KeyInfo) (replayCounter : BitVec 64) : Elem where
  addr2 := 0x001018000002
  msgLen := minMsgLen
  packet := ⟨1, 3, 95, 0x02, keyInfo, 16, replayCounter, 0, 0, 0, 0, 0, 0, []⟩

/-- A message 4 with a replay counter of its own changes nothing. -/
theorem unauthenticated_unchanged_message4 :
    actionOf (bareFrame ⟨true, true, false, false, false, 0, 2, true, 0, false, false⟩ 7).packet =
      some .pairMsg4 ∧
    ∀ c : Crypto, Unchanged (homeAdapter homeBss [keyedStation])
      (wpaEAPOLKeyAction c (homeAdapter homeBss [keyedStation])
        (bareFrame ⟨true, true, false, false, false, 0, 2, true, 0, false, false⟩ 7)
        (homeEnv 9)).1 keyedStation := by
  refine ⟨by decide, fun c => ?_⟩
  refine (unauthenticated_unchanged_iff c _ keyedStation _ _ (by decide) rfl
    (.inr (by decide))).mpr (.inr ?_)
  have haction : actionOf (bareFrame ⟨true, true, false, false, false, 0, 2, true, 0, false,
      false⟩ 7).packet = some .pairMsg4 := by decide
  rw [haction]
  trivial

/-- A request without a MIC and with a counter of its own renews the group key. -/
theorem unauthenticated_request_rekeys :
    ¬ ∃ c : Crypto, ∀ (ad : Adapter) (e : Entry) (f : Elem) (env : Env),
      ad.macTab.entry f.addr2 = some e → e.kind = .client → f.packet.keyInfo.keyAck = false →
      Unauthenticated c ad e f.packet → Unchanged ad (wpaEAPOLKeyAction c ad f env).1 e := by
  rintro ⟨c, h⟩
  let request := bareFrame ⟨false, true, false, true, false, 0, 2, false, 0, false, false⟩ 7
  have hunchanged := h (homeAdapter homeBss [keyedStation]) keyedStation request (homeEnv 9)
    (by decide) rfl rfl (.inr (by decide))
  rw [wpaEAPOLKeyAction_of_admitted c (e := keyedStation) (by decide) (by decide)
    (show actionOf request.packet = some .groupKeyRequest by decide)] at hunchanged
  exact groupKeyRequest_changes c hunchanged

end RalinkSdk.Wpa
