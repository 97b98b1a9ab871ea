import RalinkSdk.Wps.Agreement
import RalinkSdk.Wps.Registrar

/-!
# What an enrollee has proved when it gets the credential

M3 commits the enrollee to two nonces, and M5 and M7 open one commitment each.  `ProcessMessageM5`
compares the first hash with what M5 brings.  `ProcessMessageM7` does not compare the second one: an
enrollee that knows the first half of the PIN gets the credential.
-/

namespace RalinkSdk.Wps

open Lib Crypt Option List

variable (crypt : CryptFns)

/-! ## What the messages leave as it is -/

variable {id : WscId} {wscLen : Nat} {pData : List Byte}

theorem parseM3_frame {s s' : Parse} (h : parseM3 id wscLen pData s = some s') :
    ∃ eHash1 eHash2, s'.ctrl = s.ctrl.onReg fun r => { r with eHash1, eHash2 } := by
  cases id with
  | eHash1 =>
    obtain ⟨eHash1, rfl⟩ := of_bind_some h
    exact ⟨eHash1, _, rfl⟩
  | eHash2 =>
    obtain ⟨eHash2, rfl⟩ := of_bind_some h
    exact ⟨_, eHash2, rfl⟩
  | authenticator =>
    obtain ⟨_, rfl⟩ := of_bind_some h
    exact ⟨_, _, rfl⟩
  | _ =>
    cases h
    exact ⟨_, _, rfl⟩

/-- The settings of M5 and M7 change nothing but nonces and the profile of M7. -/
def NonceFrame (c c' : WscCtrl) : Prop :=
  ∃ p ap es1 es2 rs1 rs2, c' = (c.setM7Profile p).onReg fun r =>
    { r with apEncrSettings := ap, es1, es2, rs1, rs2 }

theorem NonceFrame.refl (c : WscCtrl) : NonceFrame c c := ⟨_, _, _, _, _, _, rfl⟩

theorem NonceFrame.trans {a b c : WscCtrl} (h₁ : NonceFrame a b) (h₂ : NonceFrame b c) :
    NonceFrame a c := by
  obtain ⟨p, ap, es1, es2, rs1, rs2, rfl⟩ := h₁
  obtain ⟨p', ap', es1', es2', rs1', rs2', rfl⟩ := h₂
  exact ⟨p', ap', es1', es2', rs1', rs2', rfl⟩

theorem setM7Profile_frame (c : WscCtrl) (p : WscProfile) : NonceFrame c (c.setM7Profile p) :=
  ⟨p, _, _, _, _, _, rfl⟩

variable {c c' : WscCtrl}

theorem parseStaSetting_frame
    (h : parseStaSetting id wscLen pData c = some c') : NonceFrame c c' := by
  cases id with
  | ssid =>
    obtain ⟨ssidLength, -, h⟩ := bind_eq_some_iff.mp h
    obtain ⟨_, rfl⟩ := of_bind_some h
    exact setM7Profile_frame c _
  | nwKey =>
    simp only [parseStaSetting] at h
    split_ifs at h
    · cases h
      exact .refl c
    · obtain ⟨_, rfl⟩ := of_bind_some h
      exact setM7Profile_frame c _
  | _ =>
    first
    | obtain ⟨_, rfl⟩ := of_bind_some h; exact setM7Profile_frame c _
    | cases h; exact .refl c

theorem parseSetting_frame (h : parseSetting id wscLen pData c = some c') : NonceFrame c c' := by
  have hother : ∀ c', (if c.opMode = .staMode then parseStaSetting id wscLen pData c else some c) =
      some c' → NonceFrame c c' := by
    intro c' h
    split_ifs at h
    · exact parseStaSetting_frame h
    · cases h
      exact .refl c
  cases id with
  | eSnonce1 =>
    obtain ⟨es1, rfl⟩ := of_bind_some h
    exact ⟨_, _, es1, _, _, _, rfl⟩
  | eSnonce2 =>
    obtain ⟨es2, rfl⟩ := of_bind_some h
    exact ⟨_, _, _, es2, _, _, rfl⟩
  | rSnonce1 =>
    obtain ⟨rs1, rfl⟩ := of_bind_some h
    exact ⟨_, _, _, _, rs1, _, rfl⟩
  | rSnonce2 =>
    obtain ⟨rs2, rfl⟩ := of_bind_some h
    exact ⟨_, _, _, _, _, rs2, rfl⟩
  | keyWrapAuth =>
    obtain ⟨_, rfl⟩ := of_bind_some h
    exact .refl _
  | _ => exact hother c' h

theorem scan_dispatch_preserves {σ : Type} {handle : WscId → Nat → List Byte → σ → Option σ}
    {P : σ → Prop} (hhandle : ∀ id len p s s', P s → handle id len p s = some s' → P s')
    {length : Nat} {p : List Byte} {s s' : σ} (hs : P s)
    (h : scan (dispatch handle) length p s = some s') : P s' := by
  refine scan_preserves (fun type len p s s' hs h => ?_) hs h
  unfold dispatch at h
  split at h
  · exact hhandle _ _ _ _ _ hs h
  · obtain rfl := some.inj h
    exact hs

theorem wscParseEncrSettings_frame {plainLength : Nat}
    (h : wscParseEncrSettings plainLength c = some c') : NonceFrame c c' :=
  scan_dispatch_preserves (P := NonceFrame c)
    (fun _ _ _ _ _ hs h => hs.trans (parseSetting_frame h)) (.refl c) h

theorem decryptSettings_frame {encrLen : Int}
    (h : decryptSettings crypt wscLen pData c = some (c', encrLen)) : NonceFrame c c' := by
  obtain ⟨value, -, h⟩ := bind_eq_some_iff.mp h
  obtain ⟨⟨iv, encrData⟩, -, h⟩ := bind_eq_some_iff.mp h
  obtain ⟨⟨apEncrSettings, len⟩, -, h⟩ := bind_eq_some_iff.mp h
  have hc : _ = c' := congrArg Prod.fst (some.inj h)
  exact ⟨_, apEncrSettings, _, _, _, _, hc.symm⟩

theorem parseEncrSettings_frame {s s' : Parse}
    (h : parseEncrSettings crypt wscLen pData s = some s') : NonceFrame s.ctrl s'.ctrl := by
  unfold parseEncrSettings at h
  split_ifs at h
  · obtain rfl := some.inj h
    exact .refl _
  · obtain ⟨⟨c, encrLen⟩, hdecrypt, h⟩ := bind_eq_some_iff.mp h
    obtain ⟨c', hparse, h⟩ := bind_eq_some_iff.mp h
    obtain rfl := some.inj h
    exact (decryptSettings_frame crypt hdecrypt).trans (wscParseEncrSettings_frame hparse)

theorem parseM5_frame {s s' : Parse}
    (h : parseM5 crypt id wscLen pData s = some s') : NonceFrame s.ctrl s'.ctrl := by
  cases id with
  | encrSettings => exact parseEncrSettings_frame crypt h
  | authenticator =>
    obtain ⟨_, rfl⟩ := of_bind_some h
    exact .refl _
  | _ =>
    cases h
    exact .refl _

theorem parseM7_frame {s s' : Parse}
    (h : parseM7 crypt id wscLen pData s = some s') : NonceFrame s.ctrl s'.ctrl := by
  cases id with
  | encrSettings =>
    simp only [parseM7] at h
    split_ifs at h
    · cases h
      exact .refl _
    · obtain ⟨⟨c, encrLen⟩, hdecrypt, h⟩ := bind_eq_some_iff.mp h
      obtain ⟨c', hparse, h⟩ := bind_eq_some_iff.mp h
      cases h
      have hparse := wscParseEncrSettings_frame hparse
      refine (decryptSettings_frame crypt hdecrypt).trans ?_
      -- a station clears its profile before
      split_ifs at hparse
      · exact (setM7Profile_frame c zeroProfile).trans hparse
      · exact hparse
  | authenticator =>
    obtain ⟨_, rfl⟩ := of_bind_some h
    exact .refl _
  | _ =>
    cases h
    exact .refl _

/-! ## Messages that are accepted -/

variable {msg : List Byte} {s : Parse}

theorem receive_frame {mandatory : List WscId}
    {handle : WscId → Nat → List Byte → Parse → Option Parse} {R : WscCtrl → WscCtrl → Prop}
    (hrefl : ∀ c, R c c)
    (hhandle : ∀ c id len p s s', R c s.ctrl → handle id len p s = some s' → R c s'.ctrl)
    {c : WscCtrl} (h : receive mandatory handle msg c = some s) :
    ∃ m, m.Holds msg ∧ R (c.onReg fun r => { r with lastRx := m }) s.ctrl := by
  obtain ⟨s₀, hstart, h⟩ := bind_eq_some_iff.mp h
  obtain ⟨m, hsave, hs₀⟩ := bind_eq_some_iff.mp hstart
  obtain ⟨data, hstore, hm⟩ := bind_eq_some_iff.mp hsave
  obtain rfl := some.inj hm
  obtain rfl := some.inj hs₀
  refine ⟨⟨msg.length, data⟩, ⟨rfl, _, Buf.bytes_of_store hstore⟩, ?_⟩
  exact scan_dispatch_preserves (P := fun s => R (c.onReg fun r => { r with lastRx := _ }) s.ctrl)
    (fun id len p s s' hs h => hhandle _ id len p s s' hs h) (hrefl _) h

theorem receiveM3_frame {c : WscCtrl} (h : receive mandatoryM3 parseM3 msg c = some s) :
    ∃ m, m.Holds msg ∧ ∃ eHash1 eHash2,
      s.ctrl = c.onReg fun r => { r with lastRx := m, eHash1, eHash2 } :=
  receive_frame
    (R := fun c c' => ∃ eHash1 eHash2, c' = c.onReg fun r => { r with eHash1, eHash2 })
    (fun c => ⟨_, _, rfl⟩)
    (fun c id len p s s' hs h => by
      obtain ⟨eHash1, eHash2, hs⟩ := hs
      obtain ⟨eHash1', eHash2', hs'⟩ := parseM3_frame h
      exact ⟨eHash1', eHash2', by rw [hs', hs]; rfl⟩) h

theorem receiveM5_frame {c : WscCtrl} (h : receive mandatoryM5 (parseM5 crypt) msg c = some s) :
    ∃ m, m.Holds msg ∧ NonceFrame (c.onReg fun r => { r with lastRx := m }) s.ctrl :=
  receive_frame .refl (fun _ _ _ _ _ _ hs h => hs.trans (parseM5_frame crypt h)) h

theorem receiveM7_frame {c : WscCtrl} (h : receive [] (parseM7 crypt) msg c = some s) :
    ∃ m, m.Holds msg ∧ NonceFrame (c.onReg fun r => { r with lastRx := m }) s.ctrl :=
  receive_frame .refl (fun _ _ _ _ _ _ hs h => hs.trans (parseM7_frame crypt h)) h

theorem checkMessage_noError {c : WscCtrl} (h : checkMessage crypt s = some (.noError, c)) :
    c = s.ctrl ∧ checkHmac crypt s.ctrl.regData s.hmac = some true := by
  obtain ⟨ok, hok, h⟩ := bind_eq_some_iff.mp h
  split_ifs at h with hwanting hok'
  · cases some.inj h
  · refine ⟨(congrArg Prod.snd (some.inj h)).symm, ?_⟩
    rw [hok, hok']
  · cases some.inj h

theorem processMessageM3_noError (h : processMessageM3 crypt msg c = some (.noError, c')) :
    ∃ s, receive mandatoryM3 parseM3 msg c = some s ∧ c' = s.ctrl := by
  obtain ⟨s, hs, h⟩ := bind_eq_some_iff.mp h
  exact ⟨s, hs, (checkMessage_noError crypt h).1⟩

theorem processMessageM5_noError (h : processMessageM5 crypt msg c = some (.noError, c')) :
    ∃ s, receive mandatoryM5 (parseM5 crypt) msg c = some s ∧ c' = s.ctrl ∧
      checkHmac crypt s.ctrl.regData s.hmac = some true ∧
      s.ctrl.regData.eHash1 =
        s.ctrl.regData.hashOf crypt s.ctrl.regData.es1 s.ctrl.regData.psk1 := by
  obtain ⟨s, hs, h⟩ := bind_eq_some_iff.mp h
  obtain ⟨result, hresult, h⟩ := bind_eq_some_iff.mp h
  dsimp only at h
  split_ifs at h with hhash
  · cases congrArg Prod.fst (some.inj h)
  · obtain rfl := some.inj h
    obtain ⟨hc, hok⟩ := checkMessage_noError crypt hresult
    exact ⟨s, hs, hc, hok, not_not.mp hhash⟩

theorem processMessageM7_noError (h : processMessageM7 crypt msg c = some (.noError, c')) :
    ∃ s, receive [] (parseM7 crypt) msg c = some s ∧ c' = s.ctrl ∧
      checkHmac crypt s.ctrl.regData s.hmac = some true := by
  obtain ⟨s, hs, h⟩ := bind_eq_some_iff.mp h
  obtain ⟨hc, hok⟩ := checkMessage_noError crypt h
  exact ⟨s, hs, hc, hok⟩

/-! ## Messages that are sent -/

theorem buildMessageM4_frame {iv : Buf 16} {msg : List Attr}
    (h : buildMessageM4 crypt iv c = some (msg, c')) :
    ∃ rHash1 rHash2 lastTx, c' = c.onReg fun r => { r with
      psk1 := c.regData.pskHalf1 crypt
      psk2 := c.regData.pskHalf2 crypt
      rHash1
      rHash2
      lastTx } := by
  obtain ⟨plain, -, h⟩ := bind_eq_some_iff.mp h
  obtain ⟨body, -, h⟩ := bind_eq_some_iff.mp h
  obtain ⟨msg', -, h⟩ := bind_eq_some_iff.mp h
  obtain ⟨c'', hsave, h⟩ := bind_eq_some_iff.mp h
  obtain ⟨lastTx, -, hc''⟩ := bind_eq_some_iff.mp hsave
  have hc' : c'' = c' := congrArg Prod.snd (some.inj h)
  rw [← hc', ← some.inj hc'']
  exact ⟨_, _, lastTx, rfl⟩

theorem buildMessageM6_frame {iv : Buf 16} {msg : List Attr}
    (h : buildMessageM6 crypt iv c = some (msg, c')) :
    ∃ lastTx, c' = c.onReg fun r => { r with lastTx } := by
  obtain ⟨plain, -, h⟩ := bind_eq_some_iff.mp h
  obtain ⟨msg', -, h⟩ := bind_eq_some_iff.mp h
  obtain ⟨c'', hsave, h⟩ := bind_eq_some_iff.mp h
  obtain ⟨lastTx, -, hc''⟩ := bind_eq_some_iff.mp hsave
  have hc' : c'' = c' := congrArg Prod.snd (some.inj h)
  rw [← hc', ← some.inj hc'']
  exact ⟨lastTx, rfl⟩

/-! ## What a call can do -/

/-- The states in which the registrar waits for M3, M5 or M7. -/
def WscState.inSession : WscState → Bool
  | .waitM3 | .waitM5 | .waitM7 => true
  | _ => false

theorem startUpnp_cases (x : Call) (s : Registrar) : startUpnp x s = s ∨
      x.msgType = .m1 ∧ (startUpnp x s).ctrl.wscState = .waitM1 := by
  unfold startUpnp
  split_ifs with h
  · exact .inr ⟨h.2.1, rfl⟩
  · exact .inl rfl

variable {x : Call} {answer : Answer}

theorem registrarFail_cases {rv : WscError} {s s' : Registrar}
    (h : registrarFail x rv s = some (answer, s')) :
    (answer = .nothing ∨ ∃ msg, answer = .nack msg) ∧ s'.ctrl.wscState = .off := by
  unfold registrarFail at h
  by_cases hupnp : x.bUpnpMsg
  · simp only [hupnp, if_true] at h
    obtain ⟨rfl, rfl⟩ := Prod.mk.inj (some.inj h)
    exact ⟨.inl rfl, rfl⟩
  · simp only [hupnp, Bool.false_eq_true, if_false] at h
    obtain ⟨msg, -, h⟩ := bind_eq_some_iff.mp h
    obtain ⟨rfl, rfl⟩ := Prod.mk.inj (some.inj h)
    exact ⟨.inr ⟨msg, rfl⟩, rfl⟩

theorem resetUpnp_cases (x : Call) (s : Registrar) :
    resetUpnp x s = s ∨ (resetUpnp x s).ctrl.wscState = .waitUpnpStart := by
  unfold resetUpnp
  split_ifs
  · exact .inr rfl
  · exact .inl rfl

theorem registrarDone_cases (x : Call) (s : Registrar) : registrarDone x s = s ∨
      s.ctrl.wscState = .configured ∧ (registrarDone x s).ctrl.wscState.inSession = false := by
  by_cases hdone : s.ctrl.wscState = .configured
  · refine .inr ⟨hdone, ?_⟩
    unfold registrarDone
    rw [if_pos hdone]
    simp only [Registrar.onCtrl, Registrar.endUpnp, applyProfile, WscCtrl.setState,
      WscCtrl.setProfile]
    split_ifs <;> simp_all [WscState.inSession]
  · exact .inl (if_neg hdone)

/-- **What a call can do**: after a message of another kind nothing; after an error the session is
    over; else what the state machine does, or the session is over too. -/
theorem registrarAction_cases {s s' : Registrar}
    (h : wscEapRegistrarAction crypt x s = some (answer, s')) :
    (x.msgType = .other ∧ answer = .nothing ∧ s' = startUpnp x s) ∨
      ∃ rv answer' c, registrarSwitch crypt x (startUpnp x s).ctrl = some (rv, answer', c) ∧
        (rv = .noError ∧ answer = answer' ∧
            (s'.ctrl = c ∨ s'.ctrl.wscState.inSession = false) ∨
          rv ≠ .noError ∧ (answer = .nothing ∨ ∃ msg, answer = .nack msg) ∧
            s'.ctrl.wscState.inSession = false) := by
  unfold wscEapRegistrarAction at h
  dsimp only at h
  split_ifs at h with hother
  · obtain ⟨rfl, rfl⟩ := Prod.mk.inj (some.inj h)
    exact .inl ⟨hother, rfl, rfl⟩
  · obtain ⟨⟨rv, answer', c⟩, hswitch, h⟩ := bind_eq_some_iff.mp h
    refine .inr ⟨rv, answer', c, hswitch, ?_⟩
    dsimp only at h
    split_ifs at h with hrv
    · -- the state is WSC_STATE_OFF
      obtain ⟨⟨answer'', s₁⟩, hs₁, h⟩ := bind_eq_some_iff.mp h
      obtain ⟨rfl, rfl⟩ := Prod.mk.inj (some.inj h)
      obtain ⟨hanswer, hoff⟩ := registrarFail_cases hs₁
      refine .inr ⟨hrv, hanswer, ?_⟩
      rcases registrarDone_cases x s₁ with hsame | ⟨hdone, -⟩
      · rw [hsame, hoff]
        rfl
      · rw [hoff] at hdone
        cases hdone
    · obtain ⟨rfl, rfl⟩ := Prod.mk.inj (some.inj h)
      refine .inl ⟨not_not.mp hrv, rfl, ?_⟩
      rcases registrarDone_cases x (resetUpnp x ((startUpnp x s).onCtrl fun _ => c)) with
        hsame | ⟨-, hover⟩
      · rw [hsame]
        rcases resetUpnp_cases x ((startUpnp x s).onCtrl fun _ => c) with hkept | hreset
        · rw [hkept]
          exact .inl rfl
        · rw [hreset]
          exact .inr rfl
      · exact .inr hover

/-! ## The messages of a session -/

/-- A message that the registrar has taken, and the control block that it found. -/
structure Taken where
  call : Call
  ctrl : WscCtrl

/-- The messages M3, M5 and M7 that were taken since M1. -/
def note (x : Call) (c : WscCtrl) (session : List Taken) : List Taken :=
  match x.msgType, c.wscState with
  | .m1, .waitM1 => []
  | .m3, .waitM3 => session ++ [⟨x, c⟩]
  | .m5, .waitM5 => session ++ [⟨x, c⟩]
  | .m7, .waitM7 => session ++ [⟨x, c⟩]
  | _, _ => session

/-- **The state machine**: a message is passed over or taken in the state that waits for it. -/
theorem registrarSwitch_cases {rv : WscError}
    (h : registrarSwitch crypt x c = some (rv, answer, c')) :
    (rv = .noError ∧ answer = .nothing ∧ c' = c ∧ ∀ session, note x c session = session) ∨
      (x.msgType = .m1 ∧ c.wscState = .waitM1 ∧ onM1 crypt x c = some (rv, answer, c')) ∨
      (x.msgType = .m3 ∧ c.wscState = .waitM3 ∧ onM3 crypt x c = some (rv, answer, c')) ∨
      (x.msgType = .m5 ∧ c.wscState = .waitM5 ∧ onM5 crypt x c = some (rv, answer, c')) ∨
      (x.msgType = .m7 ∧ c.wscState = .waitM7 ∧ onM7 crypt x c = some (rv, answer, c')) ∨
      (x.msgType = .wscDone ∧ c.wscState = .waitDone ∧ onDone c = some (rv, answer, c')) := by
  unfold registrarSwitch at h
  split at h
  case h_1 hmsg hstate => exact .inr (.inl ⟨hmsg, hstate, h⟩)
  case h_2 hmsg hstate => exact .inr (.inr (.inl ⟨hmsg, hstate, h⟩))
  case h_3 hmsg hstate => exact .inr (.inr (.inr (.inl ⟨hmsg, hstate, h⟩)))
  case h_4 hmsg hstate => exact .inr (.inr (.inr (.inr (.inl ⟨hmsg, hstate, h⟩))))
  case h_5 hmsg hstate => exact .inr (.inr (.inr (.inr (.inr ⟨hmsg, hstate, h⟩))))
  case h_6 h₁ h₃ h₅ h₇ _ =>
    cases some.inj h
    refine .inl ⟨rfl, rfl, rfl, fun session => ?_⟩
    unfold note
    split
    case h_1 hmsg hstate => exact (h₁ hmsg hstate).elim
    case h_2 hmsg hstate => exact (h₃ hmsg hstate).elim
    case h_3 hmsg hstate => exact (h₅ hmsg hstate).elim
    case h_4 hmsg hstate => exact (h₇ hmsg hstate).elim
    case h_5 => rfl

theorem onM1_noError (h : onM1 crypt x c = some (.noError, answer, c')) :
    (∃ msg, answer = .m2d msg ∧ c'.wscState = .sentM2d) ∨
      ∃ msg, answer = .m2 msg ∧ c'.wscState = .waitM3 := by
  obtain ⟨⟨rv, c₁⟩, -, h⟩ := bind_eq_some_iff.mp h
  dsimp only at h
  split_ifs at h with hrv hm2d
  · cases some.inj h
    exact absurd rfl hrv
  · obtain ⟨msg, -, h⟩ := bind_eq_some_iff.mp h
    cases some.inj h
    exact .inl ⟨msg, rfl, rfl⟩
  · obtain ⟨⟨msg, c₂⟩, -, h⟩ := bind_eq_some_iff.mp h
    dsimp only at h
    split_ifs at h <;> cases some.inj h <;> exact .inr ⟨msg, rfl, rfl⟩

theorem onM3_noError (h : onM3 crypt x c = some (.noError, answer, c')) :
    ∃ c₁ c₂ msg, processMessageM3 crypt x.msg c = some (.noError, c₁) ∧
      buildMessageM4 crypt x.iv c₁ = some (msg, c₂) ∧ answer = .m4 msg ∧
      c' = c₂.setState .waitM5 := by
  obtain ⟨⟨rv, c₁⟩, hprocess, h⟩ := bind_eq_some_iff.mp h
  dsimp only at h
  split_ifs at h with hrv
  · cases some.inj h
    exact absurd rfl hrv
  · obtain ⟨⟨msg, c₂⟩, hbuild, h⟩ := bind_eq_some_iff.mp h
    cases some.inj h
    exact ⟨c₁, c₂, msg, not_not.mp hrv ▸ hprocess, hbuild, rfl, rfl⟩

theorem onM5_noError (h : onM5 crypt x c = some (.noError, answer, c')) :
    ∃ c₁ c₂ msg, processMessageM5 crypt x.msg c = some (.noError, c₁) ∧
      buildMessageM6 crypt x.iv c₁ = some (msg, c₂) ∧ answer = .m6 msg ∧
      c' = c₂.setState .waitM7 := by
  obtain ⟨⟨rv, c₁⟩, hprocess, h⟩ := bind_eq_some_iff.mp h
  dsimp only at h
  split_ifs at h with hrv
  · cases some.inj h
    exact absurd rfl hrv
  · obtain ⟨⟨msg, c₂⟩, hbuild, h⟩ := bind_eq_some_iff.mp h
    cases some.inj h
    exact ⟨c₁, c₂, msg, not_not.mp hrv ▸ hprocess, hbuild, rfl, rfl⟩

theorem onM7_noError (h : onM7 crypt x c = some (.noError, answer, c')) :
    (∃ c₁, processMessageM7 crypt x.msg c = some (.noError, c₁)) ∧
      c'.wscState.inSession = false := by
  obtain ⟨⟨rv, c₁⟩, hprocess, h⟩ := bind_eq_some_iff.mp h
  dsimp only at h
  split_ifs at h with hrv hm8
  · cases some.inj h
    exact absurd rfl hrv
  · obtain ⟨⟨msg, c₂⟩, -, h⟩ := bind_eq_some_iff.mp h
    cases some.inj h
    exact ⟨⟨c₁, not_not.mp hrv ▸ hprocess⟩, rfl⟩
  · obtain ⟨msg, -, h⟩ := bind_eq_some_iff.mp h
    cases some.inj h
    exact ⟨⟨c₁, not_not.mp hrv ▸ hprocess⟩, rfl⟩

theorem onDone_noError {rv : WscError} (h : onDone c = some (rv, answer, c')) :
    (answer = .eapFail ∨ ∃ msg, answer = .ack msg) ∧ c'.wscState = .configured := by
  unfold onDone at h
  split_ifs at h
  · cases some.inj h
    exact ⟨.inl rfl, rfl⟩
  · obtain ⟨msg, -, h⟩ := bind_eq_some_iff.mp h
    cases some.inj h
    exact ⟨.inr ⟨msg, rfl⟩, rfl⟩

/-! ## What a message brings -/

/-- The field has this value after the walk whatever it had before: the value is in the message. -/
def Brings {α : Type} (walk : α → Option Parse) (field : Parse → α) (v : α) : Prop :=
  ∀ before, ∃ s, walk before = some s ∧ field s = v

theorem Brings.eq {α : Type} {walk : α → Option Parse} {field : Parse → α} {v : α}
    (h : Brings walk field v) (before : α) (hs : walk before = some s) : field s = v := by
  obtain ⟨s', hs', hv⟩ := h before
  rw [hs] at hs'
  rwa [some.inj hs']

theorem Brings.unique {α : Type} {walk : α → Option Parse} {field : Parse → α} {v v' : α}
    (h : Brings walk field v) (h' : Brings walk field v') : v = v' := by
  obtain ⟨s, hs, hv⟩ := h v
  rw [← hv]
  exact h'.eq v hs

namespace Taken

variable (t : Taken)

/-- M3 brings the first hash. -/
def BringsEHash1 (hash : Buf 32) : Prop :=
  Brings (fun eHash1 => receive mandatoryM3 parseM3 t.call.msg
    (t.ctrl.onReg fun r => { r with eHash1 })) (fun s => s.ctrl.regData.eHash1) hash

/-- M3 brings the second hash. -/
def BringsEHash2 (hash : Buf 32) : Prop :=
  Brings (fun eHash2 => receive mandatoryM3 parseM3 t.call.msg
    (t.ctrl.onReg fun r => { r with eHash2 })) (fun s => s.ctrl.regData.eHash2) hash

/-- M5 brings the nonce E-S1. -/
def BringsES1 (nonce : Buf 16) : Prop :=
  Brings (fun es1 => receive mandatoryM5 (parseM5 crypt) t.call.msg
    (t.ctrl.onReg fun r => { r with es1 })) (fun s => s.ctrl.regData.es1) nonce

/-- M7 brings the nonce E-S2. -/
def BringsES2 (nonce : Buf 16) : Prop :=
  Brings (fun es2 => receive [] (parseM7 crypt) t.call.msg
    (t.ctrl.onReg fun r => { r with es2 })) (fun s => s.ctrl.regData.es2) nonce

def BringsAuthenticatorM5 (a : Buf 8) : Prop :=
  Brings (fun hmac => receiveFrom mandatoryM5 (parseM5 crypt) hmac t.call.msg t.ctrl)
    (fun s => s.hmac) a

def BringsAuthenticatorM7 (a : Buf 8) : Prop :=
  Brings (fun hmac => receiveFrom [] (parseM7 crypt) hmac t.call.msg t.ctrl) (fun s => s.hmac) a

/-- The Authenticator is that of the message sent before and of the message without its end. -/
def Authentic (a : Buf 8) : Prop :=
  (crypt.rtHmacSha256 t.ctrl.regData.authKey.bytes
    (t.ctrl.regData.lastTx.bytes ++ t.call.msg.take (t.call.msg.length - 12))).first 8
      authenticator_le_digest = a

theorem authentic_of_checkHmac {s : Parse} {m : WscMessage} (hm : m.Holds t.call.msg)
    (hlastRx : s.ctrl.regData.lastRx = m) (hlastTx : s.ctrl.regData.lastTx = t.ctrl.regData.lastTx)
    (hauthKey : s.ctrl.regData.authKey = t.ctrl.regData.authKey)
    (h : checkHmac crypt s.ctrl.regData s.hmac = some true) : t.Authentic crypt s.hmac := by
  unfold checkHmac at h
  split_ifs at h
  have heq := of_decide_eq_true (some.inj h)
  rw [hlastRx, hm.length, hm.bytes, hlastTx, hauthKey] at heq
  exact heq

end Taken

/-- **The enrollee has proved both halves of the PIN**: the nonces in M5 and M7 open the hashes of
    M3 under the halves of the PIN, and M5 and M7 have the right Authenticators. -/
structure PinProved (m3 m5 m7 : Taken) : Prop where
  first : ∃ hash nonce, m3.BringsEHash1 hash ∧ m5.BringsES1 crypt nonce ∧
    hash = m3.ctrl.regData.hashOf crypt nonce (m3.ctrl.regData.pskHalf1 crypt)
  second : ∃ hash nonce, m3.BringsEHash2 hash ∧ m7.BringsES2 crypt nonce ∧
    hash = m3.ctrl.regData.hashOf crypt nonce (m3.ctrl.regData.pskHalf2 crypt)
  authenticM5 : ∃ a, m5.BringsAuthenticatorM5 crypt a ∧ m5.Authentic crypt a
  authenticM7 : ∃ a, m7.BringsAuthenticatorM7 crypt a ∧ m7.Authentic crypt a

/-- What nobody checks: the messages bring their hashes, nonces and Authenticators in full length,
    and the nonce in M7 belongs to the second hash in the control block. -/
structure BringsAll (m3 m5 m7 : Taken) : Prop where
  eHash1 : ∃ hash, m3.BringsEHash1 hash
  eHash2 : ∃ hash, m3.BringsEHash2 hash
  eS1 : ∃ nonce, m5.BringsES1 crypt nonce
  eS2 : ∃ nonce, m7.BringsES2 crypt nonce ∧
    m7.ctrl.regData.eHash2 = m7.ctrl.regData.hashOf crypt nonce m7.ctrl.regData.psk2
  authM5 : ∃ a, m5.BringsAuthenticatorM5 crypt a
  authM7 : ∃ a, m7.BringsAuthenticatorM7 crypt a

/-! ## The invariant of a session -/

/-- The hashes of M3, and the keys and the halves of the PIN under which they are opened. -/
structure Committed (m3 : Taken) (r : WscRegData) : Prop where
  hashes : ∃ s, receive mandatoryM3 parseM3 m3.call.msg m3.ctrl = some s ∧
    r.eHash1 = s.ctrl.regData.eHash1 ∧ r.eHash2 = s.ctrl.regData.eHash2
  authKey : r.authKey = m3.ctrl.regData.authKey
  pke : r.pke = m3.ctrl.regData.pke
  pkr : r.pkr = m3.ctrl.regData.pkr
  psk1 : r.psk1 = m3.ctrl.regData.pskHalf1 crypt
  psk2 : r.psk2 = m3.ctrl.regData.pskHalf2 crypt

variable {crypt}

variable {m3 : Taken}

theorem Committed.hashOf {r : WscRegData} (h : Committed crypt m3 r)
    (nonce psk : Buf 16) : r.hashOf crypt nonce psk = m3.ctrl.regData.hashOf crypt nonce psk := by
  rw [WscRegData.hashOf, WscRegData.hashOf, h.authKey, h.pke, h.pkr]

theorem Committed.of_eq {r r' : WscRegData} (h : Committed crypt m3 r)
    (hframe : ∃ m p ap es1 es2 rs1 rs2, r' = { r with
      lastRx := m
      lastTx := p
      apEncrSettings := ap
      es1 := es1
      es2 := es2
      rs1 := rs1
      rs2 := rs2 }) : Committed crypt m3 r' := by
  obtain ⟨m, p, ap, es1, es2, rs1, rs2, rfl⟩ := hframe
  exact ⟨h.hashes, h.authKey, h.pke, h.pkr, h.psk1, h.psk2⟩

theorem Committed.nonceFrame {m : WscMessage} (h : Committed crypt m3 c.regData)
    (hframe : NonceFrame (c.onReg fun r => { r with lastRx := m }) c') :
    Committed crypt m3 c'.regData := by
  obtain ⟨p, ap, es1, es2, rs1, rs2, rfl⟩ := hframe
  exact h.of_eq ⟨m, _, ap, es1, es2, rs1, rs2, rfl⟩

variable (crypt)

/-- M5 has opened the first hash. -/
structure Opened (m3 m5 : Taken) : Prop where
  committed : Committed crypt m3 m5.ctrl.regData
  opens : ∃ s, receive mandatoryM5 (parseM5 crypt) m5.call.msg m5.ctrl = some s ∧
    m5.ctrl.regData.eHash1 =
      m5.ctrl.regData.hashOf crypt s.ctrl.regData.es1 m5.ctrl.regData.psk1 ∧
    m5.Authentic crypt s.hmac

/-- The registrar, and the messages of its session. -/
structure World where
  registrar : Registrar
  session : List Taken

/-- A message arrives, or another part of the driver has run. -/
inductive Event where
  | message (x : Call)
  | elsewhere (s : Registrar)

/-- An event.  Another part of the driver leaves a session as it is or ends it: only
    `WscEapRegistrarAction` goes to `WSC_STATE_WAIT_M5` or `WSC_STATE_WAIT_M7`. -/
def World.step (w : World) : Event → Option (Answer × World)
  | .message x => do
    let (answer, s) ← wscEapRegistrarAction crypt x w.registrar
    some (answer, ⟨s, note x (startUpnp x w.registrar).ctrl w.session⟩)
  | .elsewhere s =>
    if s.ctrl.wscState = w.registrar.ctrl.wscState ∧ s.ctrl.regData = w.registrar.ctrl.regData then
      some (.nothing, ⟨s, w.session⟩)
    else if s.ctrl.wscState = .waitM5 ∨ s.ctrl.wscState = .waitM7 then none
    else some (.nothing, ⟨s, []⟩)

def World.run (w : World) : List Event → Option World
  | [] => some w
  | e :: es => do (← w.step crypt e).2.run es

/-- The messages that a session consists of, by the state of the registrar. -/
def SessionInv (state : WscState) (r : WscRegData) (session : List Taken) : Prop :=
  match state with
  | .waitM3 => session = []
  | .waitM5 => ∃ m3, session = [m3] ∧ m3.call.msgType = .m3 ∧ Committed crypt m3 r
  | .waitM7 => ∃ m3 m5, session = [m3, m5] ∧ m3.call.msgType = .m3 ∧ m5.call.msgType = .m5 ∧
      Opened crypt m3 m5 ∧ Committed crypt m3 r
  | _ => True

def World.Inv (w : World) : Prop :=
  SessionInv crypt w.registrar.ctrl.wscState w.registrar.ctrl.regData w.session

theorem sessionInv_of_over {state : WscState} (h : state.inSession = false) (r : WscRegData)
    (session : List Taken) : SessionInv crypt state r session := by
  cases state <;> trivial

variable {crypt}

theorem committed_onM3 (h : onM3 crypt x c = some (.noError, answer, c')) :
    c'.wscState = .waitM5 ∧ Committed crypt ⟨x, c⟩ c'.regData := by
  obtain ⟨c₁, c₂, msg, hprocess, hbuild, -, rfl⟩ := onM3_noError crypt h
  obtain ⟨s, hs, rfl⟩ := processMessageM3_noError crypt hprocess
  obtain ⟨m, -, eHash1, eHash2, hctrl⟩ := receiveM3_frame hs
  obtain ⟨rHash1, rHash2, lastTx, rfl⟩ := buildMessageM4_frame crypt hbuild
  refine ⟨rfl, ⟨s, hs, rfl, rfl⟩, ?_, ?_, ?_, ?_, ?_⟩ <;>
    simp only [WscCtrl.setState, WscCtrl.onReg, hctrl] <;> rfl

theorem opened_onM5 (hcommitted : Committed crypt m3 c.regData)
    (h : onM5 crypt x c = some (.noError, answer, c')) :
    c'.wscState = .waitM7 ∧ Opened crypt m3 ⟨x, c⟩ ∧ Committed crypt m3 c'.regData := by
  obtain ⟨c₁, c₂, msg, hprocess, hbuild, -, rfl⟩ := onM5_noError crypt h
  obtain ⟨s, hs, rfl, hok, hhash⟩ := processMessageM5_noError crypt hprocess
  obtain ⟨m, hm, hframe⟩ := receiveM5_frame crypt hs
  obtain ⟨lastTx, rfl⟩ := buildMessageM6_frame crypt hbuild
  refine ⟨rfl, ⟨hcommitted, s, hs, ?_, ?_⟩, ?_⟩
  · obtain ⟨p, ap, es1, es2, rs1, rs2, hctrl⟩ := hframe
    rw [hctrl] at hhash ⊢
    exact hhash
  · obtain ⟨p, ap, es1, es2, rs1, rs2, hctrl⟩ := hframe
    exact Taken.authentic_of_checkHmac crypt ⟨x, c⟩ hm (by rw [hctrl]; rfl) (by rw [hctrl]; rfl)
      (by rw [hctrl]; rfl) hok
  · exact (hcommitted.nonceFrame hframe).of_eq ⟨_, lastTx, _, _, _, _, _, rfl⟩

theorem authentic_onM7 (h : onM7 crypt x c = some (.noError, answer, c')) :
    ∃ s, receive [] (parseM7 crypt) x.msg c = some s ∧ Taken.Authentic crypt ⟨x, c⟩ s.hmac := by
  obtain ⟨⟨c₁, hprocess⟩, -⟩ := onM7_noError crypt h
  obtain ⟨s, hs, -, hok⟩ := processMessageM7_noError crypt hprocess
  obtain ⟨m, hm, p, ap, es1, es2, rs1, rs2, hctrl⟩ := receiveM7_frame crypt hs
  exact ⟨s, hs, Taken.authentic_of_checkHmac crypt ⟨x, c⟩ hm (by rw [hctrl]; rfl)
    (by rw [hctrl]; rfl) (by rw [hctrl]; rfl) hok⟩

theorem note_m3 {c : WscCtrl} (hmsg : x.msgType = .m3) (hstate : c.wscState = .waitM3)
    (session : List Taken) : note x c session = session ++ [⟨x, c⟩] := by
  simp only [note, hmsg, hstate]

theorem note_m5 {c : WscCtrl} (hmsg : x.msgType = .m5) (hstate : c.wscState = .waitM5)
    (session : List Taken) : note x c session = session ++ [⟨x, c⟩] := by
  simp only [note, hmsg, hstate]

theorem note_m7 {c : WscCtrl} (hmsg : x.msgType = .m7) (hstate : c.wscState = .waitM7)
    (session : List Taken) : note x c session = session ++ [⟨x, c⟩] := by
  simp only [note, hmsg, hstate]

theorem startUpnp_of_ne (h : x.msgType ≠ .m1) (s : Registrar) : startUpnp x s = s :=
  (startUpnp_cases x s).resolve_right fun hm1 => h hm1.1

/-- **What a message does to a session** when it is not refused. -/
theorem sessionInv_message {w : World} (hinv : w.Inv crypt) {c : WscCtrl}
    (h : registrarSwitch crypt x (startUpnp x w.registrar).ctrl = some (.noError, answer, c)) :
    SessionInv crypt c.wscState c.regData (note x (startUpnp x w.registrar).ctrl w.session) := by
  rcases registrarSwitch_cases crypt h with ⟨-, -, rfl, hnote⟩ | ⟨hmsg, hstate, hm1⟩ |
    ⟨hmsg, hstate, hm3⟩ | ⟨hmsg, hstate, hm5⟩ | ⟨hmsg, hstate, hm7⟩ | ⟨hmsg, hstate, hdone⟩
  · rw [hnote]
    rcases startUpnp_cases x w.registrar with hsame | ⟨-, hwait⟩
    · rw [hsame]
      exact hinv
    · exact sessionInv_of_over crypt (by rw [hwait]; rfl) _ _
  · -- a new session
    have hnote : note x (startUpnp x w.registrar).ctrl w.session = [] := by
      simp only [note, hmsg, hstate]
    rw [hnote]
    rcases onM1_noError crypt hm1 with ⟨msg, -, hsent⟩ | ⟨msg, -, hwait⟩
    · exact sessionInv_of_over crypt (by rw [hsent]; rfl) _ _
    · rw [hwait]
      rfl
  · rw [startUpnp_of_ne (by rw [hmsg]; decide)] at hstate hm3 ⊢
    have hempty : w.session = [] := by
      have hinv' : SessionInv crypt w.registrar.ctrl.wscState _ _ := hinv
      rwa [hstate] at hinv'
    obtain ⟨hwait, hcommitted⟩ := committed_onM3 hm3
    rw [note_m3 hmsg hstate, hempty, hwait]
    exact ⟨_, rfl, hmsg, hcommitted⟩
  · rw [startUpnp_of_ne (by rw [hmsg]; decide)] at hstate hm5 ⊢
    obtain ⟨m3, hsession, hmsg3, hcommitted⟩ : ∃ m3, w.session = [m3] ∧ m3.call.msgType = .m3 ∧
        Committed crypt m3 w.registrar.ctrl.regData := by
      have hinv' : SessionInv crypt w.registrar.ctrl.wscState _ _ := hinv
      rwa [hstate] at hinv'
    obtain ⟨hwait, hopened, hcommitted'⟩ := opened_onM5 hcommitted hm5
    rw [note_m5 hmsg hstate, hsession, hwait]
    exact ⟨m3, _, rfl, hmsg3, hmsg, hopened, hcommitted'⟩
  · exact sessionInv_of_over crypt (onM7_noError crypt hm7).2 _ _
  · exact sessionInv_of_over crypt (by rw [(onDone_noError hdone).2]; rfl) _ _

/-- **Step lemma**: every event keeps the invariant. -/
theorem World.Inv.step {w w' : World} {e : Event} (hinv : w.Inv crypt)
    (h : w.step crypt e = some (answer, w')) : w'.Inv crypt := by
  cases e with
  | message x =>
    obtain ⟨⟨answer', s⟩, haction, hw'⟩ := bind_eq_some_iff.mp h
    cases some.inj hw'
    rcases registrarAction_cases crypt haction with ⟨hother, -, hs⟩ | ⟨rv, answer', c, hswitch, hs⟩
    · -- a message of another kind
      have hsame := startUpnp_of_ne (by rw [hother]; decide) w.registrar
      have hnote : note x w.registrar.ctrl w.session = w.session := by
        unfold note
        rw [hother]
      rw [hsame] at hs ⊢
      rw [hs, hnote]
      exact hinv
    · rcases hs with ⟨hrv, -, hc | hover⟩ | ⟨-, -, hover⟩
      · rw [World.Inv, hc]
        exact sessionInv_message hinv (hrv ▸ hswitch)
      · exact sessionInv_of_over crypt hover _ _
      · exact sessionInv_of_over crypt hover _ _
  | elsewhere s =>
    unfold World.step at h
    dsimp only at h
    split_ifs at h with hsame hwait
    · cases some.inj h
      rw [World.Inv, hsame.1, hsame.2]
      exact hinv
    · cases some.inj h
      obtain ⟨hm5, hm7⟩ := not_or.mp hwait
      unfold World.Inv SessionInv
      split
      · rfl
      · next heq => exact absurd heq hm5
      · next heq => exact absurd heq hm7
      · trivial

/-- **Run lemma**: a run keeps the invariant. -/
theorem World.Inv.run {w w' : World} {es : List Event} (hinv : w.Inv crypt)
    (h : w.run crypt es = some w') : w'.Inv crypt := by
  induction es generalizing w with
  | nil =>
    cases some.inj h
    exact hinv
  | cons e es ih =>
    obtain ⟨⟨answer, w₁⟩, hstep, h⟩ := bind_eq_some_iff.mp h
    exact ih (hinv.step hstep) h

theorem m8_cases {w w' : World} {msg : List Attr}
    (h : w.step crypt (.message x) = some (.m8 msg, w')) :
    x.msgType = .m7 ∧ w.registrar.ctrl.wscState = .waitM7 ∧
      w'.session = w.session ++ [⟨x, w.registrar.ctrl⟩] ∧
      ∃ c, onM7 crypt x w.registrar.ctrl = some (.noError, .m8 msg, c) := by
  obtain ⟨⟨answer', s⟩, haction, hw'⟩ := bind_eq_some_iff.mp h
  obtain ⟨rfl, rfl⟩ := Prod.mk.inj (some.inj hw')
  rcases registrarAction_cases crypt haction with ⟨-, hanswer, -⟩ | ⟨rv, answer, c, hswitch, hs⟩
  · cases hanswer
  · rcases hs with ⟨rfl, rfl, -⟩ | ⟨-, hanswer | ⟨nack, hanswer⟩, -⟩
    · rcases registrarSwitch_cases crypt hswitch with ⟨-, hanswer, -⟩ | ⟨-, -, hm1⟩ |
        ⟨-, -, hm3⟩ | ⟨-, -, hm5⟩ | ⟨hmsg, hstate, hm7⟩ | ⟨-, -, hdone⟩
      · cases hanswer
      · rcases onM1_noError crypt hm1 with ⟨_, hanswer, -⟩ | ⟨_, hanswer, -⟩ <;> cases hanswer
      · obtain ⟨_, _, _, -, -, hanswer, -⟩ := onM3_noError crypt hm3
        cases hanswer
      · obtain ⟨_, _, _, -, -, hanswer, -⟩ := onM5_noError crypt hm5
        cases hanswer
      · rw [startUpnp_of_ne (by rw [hmsg]; decide)] at hstate hm7
        refine ⟨hmsg, hstate, ?_, c, hm7⟩
        show note x (startUpnp x w.registrar).ctrl w.session = _
        rw [startUpnp_of_ne (by rw [hmsg]; decide), note_m7 hmsg hstate]
      · rcases (onDone_noError hdone).1 with hanswer | ⟨_, hanswer⟩ <;> cases hanswer
    · cases hanswer
    · cases hanswer

/-! ## The credential -/

theorem Committed.eHash2_eq {r : WscRegData} (h : Committed crypt m3 r)
    {hash : Buf 32} (hbrings : m3.BringsEHash2 hash) : r.eHash2 = hash := by
  obtain ⟨s, hs, -, hhash⟩ := h.hashes
  rw [hhash]
  exact hbrings.eq m3.ctrl.regData.eHash2 hs

theorem Committed.eHash1_eq {r : WscRegData} (h : Committed crypt m3 r)
    {hash : Buf 32} (hbrings : m3.BringsEHash1 hash) : r.eHash1 = hash := by
  obtain ⟨s, hs, hhash, -⟩ := h.hashes
  rw [hhash]
  exact hbrings.eq m3.ctrl.regData.eHash1 hs

theorem pinProved_iff_bringsAll {m3 m5 m7 : Taken} (hopened : Opened crypt m3 m5)
    (hcommitted : Committed crypt m3 m7.ctrl.regData)
    (hm7 : ∃ s, receive [] (parseM7 crypt) m7.call.msg m7.ctrl = some s ∧ m7.Authentic crypt s.hmac) :
    PinProved crypt m3 m5 m7 ↔ BringsAll crypt m3 m5 m7 := by
  constructor
  · rintro ⟨⟨hash1, nonce1, hbrings1, hnonce1, -⟩, ⟨hash2, nonce2, hbrings2, hnonce2, hopens2⟩,
      ⟨a5, ha5, -⟩, ⟨a7, ha7, -⟩⟩
    refine ⟨⟨hash1, hbrings1⟩, ⟨hash2, hbrings2⟩, ⟨nonce1, hnonce1⟩, ⟨nonce2, hnonce2, ?_⟩,
      ⟨a5, ha5⟩, ⟨a7, ha7⟩⟩
    rw [hcommitted.eHash2_eq hbrings2, hcommitted.hashOf, hcommitted.psk2]
    exact hopens2
  · rintro ⟨⟨hash1, hbrings1⟩, ⟨hash2, hbrings2⟩, ⟨nonce1, hnonce1⟩, ⟨nonce2, hnonce2, hopens2⟩,
      ⟨a5, ha5⟩, ⟨a7, ha7⟩⟩
    obtain ⟨s5, hs5, hopens1, hauthentic5⟩ := hopened.opens
    obtain ⟨s7, hs7, hauthentic7⟩ := hm7
    have hes1 : s5.ctrl.regData.es1 = nonce1 :=
      hnonce1.eq m5.ctrl.regData.es1 hs5
    have hhmac5 : s5.hmac = a5 := ha5.eq noHmac hs5
    have hhmac7 : s7.hmac = a7 := ha7.eq noHmac hs7
    refine ⟨⟨hash1, nonce1, hbrings1, hnonce1, ?_⟩, ⟨hash2, nonce2, hbrings2, hnonce2, ?_⟩,
      ⟨a5, ha5, hhmac5 ▸ hauthentic5⟩, ⟨a7, ha7, hhmac7 ▸ hauthentic7⟩⟩
    · -- M5 has compared the first hash
      have hcommitted5 := hopened.committed
      rw [← hcommitted5.eHash1_eq hbrings1, hopens1, hcommitted5.hashOf, hcommitted5.psk1, hes1]
    · rw [← hcommitted.eHash2_eq hbrings2, hopens2, hcommitted.hashOf, hcommitted.psk2]

variable (crypt)

/-- **When M8 goes to an enrollee that has proved the PIN**: in every run M8 answers an M7 that
    follows an M3 and an M5 of its session, and the three prove both halves exactly if the hashes,
    nonces and Authenticators are all there and E-S2 belongs to E-Hash2. -/
theorem m8_pin_proved_iff {s₀ : Registrar} (hm5 : s₀.ctrl.wscState ≠ .waitM5)
    (hm7 : s₀.ctrl.wscState ≠ .waitM7) {es : List Event} {w : World}
    (hrun : World.run crypt ⟨s₀, []⟩ es = some w) {x : Call} {msg : List Attr} {w' : World}
    (hm8 : w.step crypt (.message x) = some (.m8 msg, w')) : ∃ m3 m5 m7, w'.session = [m3, m5, m7] ∧
      m3.call.msgType = .m3 ∧ m5.call.msgType = .m5 ∧ m7 = ⟨x, w.registrar.ctrl⟩ ∧
      (PinProved crypt m3 m5 m7 ↔ BringsAll crypt m3 m5 m7) := by
  have hstart : World.Inv crypt ⟨s₀, []⟩ := by
    unfold World.Inv SessionInv
    split
    · rfl
    · next heq => exact absurd heq hm5
    · next heq => exact absurd heq hm7
    · trivial
  have hinv : SessionInv crypt w.registrar.ctrl.wscState _ _ := hstart.run hrun
  obtain ⟨-, hstate, hsession, c, honM7⟩ := m8_cases hm8
  rw [hstate] at hinv
  obtain ⟨m3, m5, hsession', hmsg3, hmsg5, hopened, hcommitted⟩ := hinv
  refine ⟨m3, m5, ⟨x, w.registrar.ctrl⟩, ?_, hmsg3, hmsg5, rfl, ?_⟩
  · rw [hsession, hsession']
    rfl
  · exact pinProved_iff_bringsAll hopened hcommitted (authentic_onM7 honM7)

/-! ### Two enrollees -/

variable {crypt}

theorem brings_bodyM3 {t : Taken} {prev : List Byte} (htx : t.ctrl.regData.lastTx.Holds prev)
    (hprev : prev.length ≤ 1200) {ext : List Attr} (hext : Extra ext) {version : Byte}
    {registrarNonce : Buf 16} {eHash1 eHash2 : Buf 32}
    (hmsg : t.call.msg = encodeAll (authenticated crypt t.ctrl.regData.authKey prev
      (bodyM3 version registrarNonce eHash1 eHash2 ++ ext))) :
    t.BringsEHash1 eHash1 ∧ t.BringsEHash2 eHash2 := by
  unfold Taken.BringsEHash1 Taken.BringsEHash2 Brings
  rw [hmsg]
  constructor
  · intro before
    obtain ⟨m, c', -, rfl, hreceive, -⟩ := receiveM3_accepts crypt
      (c := t.ctrl.onReg fun r => { r with eHash1 := before }) htx hprev hext version
      registrarNonce eHash1 eHash2 noHmac
    exact ⟨_, hreceive, rfl⟩
  · intro before
    obtain ⟨m, c', -, rfl, hreceive, -⟩ := receiveM3_accepts crypt
      (c := t.ctrl.onReg fun r => { r with eHash2 := before }) htx hprev hext version
      registrarNonce eHash1 eHash2 noHmac
    exact ⟨_, hreceive, rfl⟩

theorem brings_bodyM5 {t : Taken} {prev : List Byte} (htx : t.ctrl.regData.lastTx.Holds prev)
    (hprev : prev.length ≤ 1200) {ext : List Attr} (hext : Extra ext) {version : Byte}
    {registrarNonce es1 iv : Buf 16} {keyWrapAuth : Buf 8}
    (hmsg : t.call.msg = encodeAll (authenticated crypt t.ctrl.regData.authKey prev
      (frontEncr version 0x09 .registrarNonce registrarNonce ++
        [settingsAttr crypt t.ctrl.regData.keyWrapKey iv
          (nonceSettings .eSnonce1 es1 keyWrapAuth)] ++ ext))) :
    t.BringsES1 crypt es1 ∧ ∃ a, t.BringsAuthenticatorM5 crypt a := by
  unfold Taken.BringsES1 Taken.BringsAuthenticatorM5 Brings
  rw [hmsg]
  constructor
  · intro before
    obtain ⟨m, ap, -, hreceive, -⟩ := receiveM5_accepts crypt
      (c := t.ctrl.onReg fun r => { r with es1 := before }) htx hprev hext version
      registrarNonce es1 keyWrapAuth iv noHmac
    exact ⟨_, hreceive, rfl⟩
  · refine ⟨authenticatorOf crypt t.ctrl.regData.authKey prev
      (frontEncr version 0x09 .registrarNonce registrarNonce ++
        [settingsAttr crypt t.ctrl.regData.keyWrapKey iv
          (nonceSettings .eSnonce1 es1 keyWrapAuth)] ++ ext), fun before => ?_⟩
    obtain ⟨m, ap, -, hreceive, -⟩ := receiveM5_accepts crypt htx hprev hext version
      registrarNonce es1 keyWrapAuth iv before
    exact ⟨_, hreceive, rfl⟩

theorem brings_bodyM7 {t : Taken} {prev : List Byte} (htx : t.ctrl.regData.lastTx.Holds prev)
    (hprev : prev.length ≤ 1200) {ext : List Attr} (hext : Extra ext) {version : Byte}
    {registrarNonce es2 iv : Buf 16} {keyWrapAuth : Buf 8}
    (hmsg : t.call.msg = encodeAll (authenticated crypt t.ctrl.regData.authKey prev
      (frontEncr version 0x0B .registrarNonce registrarNonce ++
        [settingsAttr crypt t.ctrl.regData.keyWrapKey iv (settingsM7 es2 [] keyWrapAuth)] ++ ext))) :
    t.BringsES2 crypt es2 ∧ ∃ a, t.BringsAuthenticatorM7 crypt a := by
  unfold Taken.BringsES2 Taken.BringsAuthenticatorM7 Brings
  rw [hmsg]
  constructor
  · intro before
    obtain ⟨m, c', -, ⟨ap, p, rfl⟩, hreceive, -⟩ := receiveM7_accepts crypt
      (c := t.ctrl.onReg fun r => { r with es2 := before }) htx hprev hext version
      registrarNonce es2 (forall_mem_nil _) (Nat.zero_le _) keyWrapAuth iv noHmac
    exact ⟨_, hreceive, rfl⟩
  · refine ⟨authenticatorOf crypt t.ctrl.regData.authKey prev
      (frontEncr version 0x0B .registrarNonce registrarNonce ++
        [settingsAttr crypt t.ctrl.regData.keyWrapKey iv (settingsM7 es2 [] keyWrapAuth)] ++ ext),
      fun before => ?_⟩
    obtain ⟨m, c', -, -, hreceive, -⟩ := receiveM7_accepts crypt htx hprev hext version
      registrarNonce es2 (forall_mem_nil _) (Nat.zero_le _) keyWrapAuth iv before
    exact ⟨_, hreceive, rfl⟩

theorem registrarAction_of_switch {s : Registrar} {c : WscCtrl}
    (hother : x.msgType ≠ .other) (hm1 : x.msgType ≠ .m1) (hupnp : x.bUpnpMsg = false)
    (h : registrarSwitch crypt x s.ctrl = some (.noError, answer, c))
    (hstate : c.wscState ≠ .configured) :
    wscEapRegistrarAction crypt x s = some (answer, s.onCtrl fun _ => c) := by
  unfold wscEapRegistrarAction
  rw [startUpnp_of_ne hm1]
  simp only [hother, if_false, h, bind, bind_some, ne_eq, not_true_eq_false]
  have hreset : resetUpnp x (s.onCtrl fun _ => c) = s.onCtrl fun _ => c := by
    unfold resetUpnp
    rw [if_neg]
    rintro ⟨h, -⟩
    rw [hupnp] at h
    cases h
  rw [hreset]
  exact congrArg (fun s => some (answer, s))
    ((registrarDone_cases x _).resolve_right fun hdone => hstate hdone.1)

def Call.carrying (x : Call) (msgType : WscMsg) (msg : List Byte) : Call := { x with msgType, msg }

/-- A registrar in the access point that waits for a message. -/
structure Waiting (state : WscState) (r : WscCtrl) : Prop where
  state : r.wscState = state
  mode : r.opMode = .apMode
  extra : PlainExtra r
  sent : ∃ prev : List Byte, prev.length ≤ 1200 ∧ r.regData.lastTx.Holds prev

theorem onM3_eq {c c₁ c₂ : WscCtrl} {msg : List Attr}
    (hprocess : processMessageM3 crypt x.msg c = some (.noError, c₁))
    (hbuild : buildMessageM4 crypt x.iv c₁ = some (msg, c₂)) :
    onM3 crypt x c = some (.noError, .m4 msg, c₂.setState .waitM5) := by
  simp [onM3, hprocess, hbuild]

theorem onM5_eq {c c₁ c₂ : WscCtrl} {msg : List Attr}
    (hprocess : processMessageM5 crypt x.msg c = some (.noError, c₁))
    (hbuild : buildMessageM6 crypt x.iv c₁ = some (msg, c₂)) :
    onM5 crypt x c = some (.noError, .m6 msg, c₂.setState .waitM7) := by
  simp [onM5, hprocess, hbuild]

theorem onM7_eq {c c₁ c₂ : WscCtrl} {msg : List Attr}
    (hprocess : processMessageM7 crypt x.msg c = some (.noError, c₁)) (hmode : c₁.opMode = .apMode)
    (hbuild : buildMessageM8 crypt x.iv x.cfg x.bssid c₁ = some (msg, c₂)) :
    onM7 crypt x c = some (.noError, .m8 msg, c₂.setState .waitDone) := by
  simp [onM7, hprocess, hmode, hbuild]

variable (crypt)

variable {r : WscCtrl}

theorem takes_m3 (hr : Waiting .waitM3 r) (x : Call) (es1 es2 : Buf 16) :
    ∃ msg msg4 r', onM3 crypt (x.carrying .m3 msg) r = some (.noError, .m4 msg4, r') ∧
      (∃ hash, Taken.BringsEHash1 ⟨x.carrying .m3 msg, r⟩ hash) ∧
      Taken.BringsEHash2 ⟨x.carrying .m3 msg, r⟩
        (r.regData.hashOf crypt es2 (r.regData.pskHalf2 crypt)) ∧
      Waiting .waitM5 r' ∧
      r'.regData.eHash1 = r'.regData.hashOf crypt es1 r'.regData.psk1 ∧
      r'.regData.eHash2 = r'.regData.hashOf crypt es2 r'.regData.psk2 := by
  obtain ⟨prev, hprev, htx⟩ := hr.sent
  have hext := hr.extra.v2Attrs
  set hash1 := r.regData.hashOf crypt es1 (r.regData.pskHalf1 crypt)
  set hash2 := r.regData.hashOf crypt es2 (r.regData.pskHalf2 crypt)
  obtain ⟨rx, hrx, hprocess⟩ := processMessageM3_accepts crypt htx hprev hext 0x10
    r.regData.registrarNonce hash1 hash2
  set msg := encodeAll (authenticated crypt r.regData.authKey prev
    (bodyM3 0x10 r.regData.registrarNonce hash1 hash2 ++ v2Attrs r)) with hmsg
  have hlen : msg.length ≤ 1200 := by
    have hle := hext.length_le
    simp [hmsg, authenticated]
    omega
  set r₁ := r.onReg fun d => { d with lastRx := rx, eHash1 := hash1, eHash2 := hash2 }
  have hextra : PlainExtra r₁ := hr.extra
  obtain ⟨tx, keyWrapAuth, htx', hlen', hbuild⟩ :=
    buildMessageM4_eq crypt (c := r₁) hrx hlen hextra x.iv
  obtain ⟨hbrings1, hbrings2⟩ := brings_bodyM3
    (t := ⟨x.carrying .m3 msg, r⟩) htx hprev hext hmsg
  exact ⟨msg, _, _, onM3_eq hprocess hbuild, ⟨_, hbrings1⟩, hbrings2,
    ⟨rfl, hr.mode, hr.extra, _, hlen', htx'⟩, rfl, rfl⟩

theorem takes_m5 (hr : Waiting .waitM5 r) (x : Call) {es1 es2 : Buf 16}
    (hopens : r.regData.eHash1 = r.regData.hashOf crypt es1 r.regData.psk1)
    (hcommits : r.regData.eHash2 = r.regData.hashOf crypt es2 r.regData.psk2) :
    ∃ msg msg6 r', onM5 crypt (x.carrying .m5 msg) r = some (.noError, .m6 msg6, r') ∧
      Taken.BringsES1 crypt ⟨x.carrying .m5 msg, r⟩ es1 ∧
      (∃ a, Taken.BringsAuthenticatorM5 crypt ⟨x.carrying .m5 msg, r⟩ a) ∧ Waiting .waitM7 r' ∧
      r'.regData.eHash2 = r'.regData.hashOf crypt es2 r'.regData.psk2 := by
  obtain ⟨prev, hprev, htx⟩ := hr.sent
  have hext := hr.extra.v2Attrs
  obtain ⟨rx, ap, hrx, hprocess⟩ := processMessageM5_accepts crypt htx hprev hext 0x10
    r.regData.registrarNonce hopens (Buf.fill 8 0) x.iv
  set msg := encodeAll (authenticated crypt r.regData.authKey prev
    (frontEncr 0x10 0x09 .registrarNonce r.regData.registrarNonce ++
      [settingsAttr crypt r.regData.keyWrapKey x.iv (nonceSettings .eSnonce1 es1 (Buf.fill 8 0))] ++
      v2Attrs r)) with hmsg
  have hlen : msg.length ≤ 1200 := by
    have hle := hext.length_le
    simp [hmsg, authenticated, frontEncr]
    omega
  set r₁ := r.onReg fun d => { d with lastRx := rx, apEncrSettings := ap, es1 }
  have hextra : PlainExtra r₁ := hr.extra
  obtain ⟨tx, keyWrapAuth, htx', hlen', hbuild⟩ :=
    buildMessageM6_eq crypt (c := r₁) hrx hlen hextra x.iv
  obtain ⟨hbrings, ha⟩ := brings_bodyM5
    (t := ⟨x.carrying .m5 msg, r⟩) htx hprev hext hmsg
  exact ⟨msg, _, _, onM5_eq hprocess hbuild, hbrings, ha,
    ⟨rfl, hr.mode, hr.extra, _, hlen', htx'⟩, hcommits⟩

theorem takes_m7 (hr : Waiting .waitM7 r) (hcfg : x.cfg.first.Fits) (es2 : Buf 16) :
    ∃ msg msg8 r', onM7 crypt (x.carrying .m7 msg) r = some (.noError, .m8 msg8, r') ∧
      r'.wscState = .waitDone ∧ Taken.BringsES2 crypt ⟨x.carrying .m7 msg, r⟩ es2 ∧
      ∃ a, Taken.BringsAuthenticatorM7 crypt ⟨x.carrying .m7 msg, r⟩ a := by
  obtain ⟨prev, hprev, htx⟩ := hr.sent
  have hext := hr.extra.v2Attrs
  obtain ⟨rx, ap, p, hrx, hprocess⟩ := processMessageM7_accepts crypt htx hprev hext 0x10
    r.regData.registrarNonce es2 (forall_mem_nil _) (Nat.zero_le _) (Buf.fill 8 0) x.iv
  set msg := encodeAll (authenticated crypt r.regData.authKey prev
    (frontEncr 0x10 0x0B .registrarNonce r.regData.registrarNonce ++
      [settingsAttr crypt r.regData.keyWrapKey x.iv (settingsM7 es2 [] (Buf.fill 8 0))] ++
      v2Attrs r)) with hmsg
  have hlen : msg.length ≤ 1200 := by
    have hle := hext.length_le
    simp [hmsg, authenticated, frontEncr, settingsM7]
    omega
  set r₁ := (r.setM7Profile p).onReg fun d => { d with lastRx := rx, apEncrSettings := ap, es2 }
  have hextra : PlainExtra r₁ := hr.extra
  have hmode : r₁.opMode = .apMode := hr.mode
  have hcred : (profileM8 x.cfg x.bssid r₁).first.Fits := by
    simp only [profileM8, hmode]
    exact hcfg
  obtain ⟨keyWrapAuth, inner, hbuild⟩ :=
    buildMessageM8_eq crypt (c := r₁) hrx hlen hextra x.iv x.cfg x.bssid hcred
  obtain ⟨hbrings, ha⟩ := brings_bodyM7
    (t := ⟨x.carrying .m7 msg, r⟩) htx hprev hext hmsg
  exact ⟨msg, _, _, onM7_eq hprocess hmode hbuild, rfl, hbrings, ha⟩

theorem step_of_switch {w : World} {c : WscCtrl}
    (hother : x.msgType ≠ .other) (hm1 : x.msgType ≠ .m1) (hupnp : x.bUpnpMsg = false)
    (h : registrarSwitch crypt x w.registrar.ctrl = some (.noError, answer, c))
    (hstate : c.wscState ≠ .configured) : w.step crypt (.message x) =
      some (answer, ⟨w.registrar.onCtrl fun _ => c, note x w.registrar.ctrl w.session⟩) := by
  rw [World.step, registrarAction_of_switch hother hm1 hupnp h hstate, startUpnp_of_ne hm1]
  rfl

/-- **A run to M8**: the enrollee commits itself to `es1` and `es2` and opens the first commitment;
    whatever nonce it sends in M7, it gets M8. -/
theorem run_to_m8 (hr : Waiting .waitM3 r) (hupnp : x.bUpnpMsg = false)
    (hcfg : x.cfg.first.Fits) (es1 es2 sent : Buf 16) :
    ∃ (es : List Event) (w w' : World) (x' : Call) (msg8 : List Attr) (m3 m5 m7 : Taken),
      World.run crypt ⟨⟨r, false⟩, []⟩ es = some w ∧
      w.step crypt (.message x') = some (.m8 msg8, w') ∧ w'.session = [m3, m5, m7] ∧
      m3.ctrl = r ∧ (∃ hash, m3.BringsEHash1 hash) ∧
      m3.BringsEHash2 (r.regData.hashOf crypt es2 (r.regData.pskHalf2 crypt)) ∧
      (∃ nonce, m5.BringsES1 crypt nonce) ∧ (∃ a, m5.BringsAuthenticatorM5 crypt a) ∧
      m7.BringsES2 crypt sent ∧ (∃ a, m7.BringsAuthenticatorM7 crypt a) ∧
      m7.ctrl.regData.eHash2 = m7.ctrl.regData.hashOf crypt es2 m7.ctrl.regData.psk2 := by
  obtain ⟨msg3, msg4, r₅, hm3, hash1, hash2, hr₅, hopens, hcommits⟩ := takes_m3 crypt hr x es1 es2
  obtain ⟨msg5, msg6, r₇, hm5, hes1, ha5, hr₇, hcommits⟩ := takes_m5 crypt hr₅ x hopens hcommits
  obtain ⟨msg7, msg8, r₈, hm7, hdone, hes2, ha7⟩ := takes_m7 crypt hr₇ hcfg sent
  have hstep3 := step_of_switch crypt (w := ⟨⟨r, false⟩, []⟩) (x := x.carrying .m3 msg3)
    (by simp [Call.carrying]) (by simp [Call.carrying]) hupnp
    (show registrarSwitch crypt _ r = _ by simpa [registrarSwitch, Call.carrying, hr.state] using hm3)
    (by rw [hr₅.state]; decide)
  have hstep5 := step_of_switch crypt
    (w := ⟨⟨r₅, false⟩, note (x.carrying .m3 msg3) r []⟩) (x := x.carrying .m5 msg5)
    (by simp [Call.carrying]) (by simp [Call.carrying]) hupnp
    (show registrarSwitch crypt _ r₅ = _ by simpa [registrarSwitch, Call.carrying, hr₅.state] using hm5)
    (by rw [hr₇.state]; decide)
  have hstep7 := step_of_switch crypt
    (w := ⟨⟨r₇, false⟩, note (x.carrying .m5 msg5) r₅ (note (x.carrying .m3 msg3) r [])⟩)
    (x := x.carrying .m7 msg7)
    (by simp [Call.carrying]) (by simp [Call.carrying]) hupnp
    (show registrarSwitch crypt _ r₇ = _ by simpa [registrarSwitch, Call.carrying, hr₇.state] using hm7)
    (by rw [hdone]; decide)
  refine ⟨[.message (x.carrying .m3 msg3), .message (x.carrying .m5 msg5)], _, _, x.carrying .m7 msg7,
    msg8, ⟨x.carrying .m3 msg3, r⟩, ⟨x.carrying .m5 msg5, r₅⟩, ⟨x.carrying .m7 msg7, r₇⟩,
    ?_, hstep7, ?_, rfl, hash1, hash2, ⟨es1, hes1⟩, ha5, hes2, ha7, hcommits⟩
  · rw [World.run, hstep3]
    show World.run crypt ⟨⟨r₅, false⟩, note (x.carrying .m3 msg3) r []⟩ _ = _
    rw [World.run, hstep5]
    rfl
  · show note (x.carrying .m7 msg7) r₇ (note (x.carrying .m5 msg5) r₅
      (note (x.carrying .m3 msg3) r [])) = _
    rw [note_m3 rfl hr.state, note_m5 rfl hr₅.state, note_m7 rfl hr₇.state]
    rfl

/-- The first 32 bytes in the place of a hash. -/
def headCrypt : CryptFns :=
  { xorCrypt with rtHmacSha256 := fun _ data => ⟨(data ++ replicate 32 0).take 32, by simp⟩ }

theorem headCrypt_hashOf_inj {r : WscRegData} {nonce nonce' psk : Buf 16}
    (h : r.hashOf headCrypt nonce psk = r.hashOf headCrypt nonce' psk) : nonce = nonce' := by
  have hbytes := congrArg (fun b : Buf 32 => b.bytes.take 16) h
  simp only [WscRegData.hashOf, headCrypt, take_take, append_assoc] at hbytes
  rw [take_append_of_le_length (by rw [nonce.size]; decide),
    take_append_of_le_length (by rw [nonce'.size]; decide),
    take_of_length_le (by rw [nonce.size]; decide),
    take_of_length_le (by rw [nonce'.size]; decide)] at hbytes
  exact Buf.ext hbytes

/-- The access point with the PIN 12345670, from M3 on. -/
def waitingRegistrar : WscCtrl := apRegistrar.setState .waitM3

theorem waitingRegistrar_waiting : Waiting .waitM3 waitingRegistrar where
  state := rfl
  mode := rfl
  extra := fun a ha => by cases ha
  sent := ⟨[], Nat.zero_le _, rfl, _, rfl⟩

/-- What a call finds in the access point. -/
def apCall : Call where
  msgType := .other
  msg := []
  bUpnpMsg := false
  infraOn := false
  bssInfra := true
  selfNonce := Buf.fill 16 0xa0
  random := beBuf 192 2
  iv := Buf.fill 16 4
  cfg := ⟨1, fun _ => apCredential⟩
  bssid := Buf.fill 6 0x0c

/-- An enrollee that opens both commitments has proved the PIN. -/
theorem m8_pin_proved_honest :
    ∃ (es : List Event) (w w' : World) (x : Call) (msg : List Attr) (m3 m5 m7 : Taken),
      World.run headCrypt ⟨⟨waitingRegistrar, false⟩, []⟩ es = some w ∧
      w.step headCrypt (.message x) = some (.m8 msg, w') ∧ w'.session = [m3, m5, m7] ∧
      PinProved headCrypt m3 m5 m7 := by
  obtain ⟨es, w, w', x, msg, m3, m5, m7, hrun, hstep, hsession, -, hash1, hash2, hes1, ha5, hes2,
    ha7, hopens⟩ := run_to_m8 headCrypt waitingRegistrar_waiting (x := apCall) rfl
      apCredential_plain.fits (Buf.fill 16 1) (Buf.fill 16 2) (Buf.fill 16 2)
  obtain ⟨m3', m5', m7', hsession', -, -, -, hiff⟩ :=
    m8_pin_proved_iff headCrypt (by decide) (by decide) hrun hstep
  obtain ⟨rfl, rfl, rfl⟩ : m3 = m3' ∧ m5 = m5' ∧ m7 = m7' := by
    rw [hsession] at hsession'
    simpa using hsession'
  exact ⟨es, w, w', x, msg, m3, m5, m7, hrun, hstep, hsession,
    hiff.mpr ⟨hash1, ⟨_, hash2⟩, hes1, ⟨_, hes2, hopens⟩, ha5, ha7⟩⟩

/-- An enrollee that knows only the first half gets M8 too. -/
theorem m8_without_second_half : ∃ (es : List Event) (w w' : World) (x : Call) (msg : List Attr),
      World.run headCrypt ⟨⟨waitingRegistrar, false⟩, []⟩ es = some w ∧
      w.step headCrypt (.message x) = some (.m8 msg, w') ∧
      ¬ ∃ m3 m5 m7, w'.session = [m3, m5, m7] ∧ PinProved headCrypt m3 m5 m7 := by
  obtain ⟨es, w, w', x, msg, m3, m5, m7, hrun, hstep, hsession, hm3, -, hash2, -, -, hes2, -, -⟩ :=
    run_to_m8 headCrypt waitingRegistrar_waiting (x := apCall) rfl apCredential_plain.fits
      (Buf.fill 16 1) (Buf.fill 16 2) (Buf.fill 16 3)
  refine ⟨es, w, w', x, msg, hrun, hstep, ?_⟩
  rintro ⟨m3', m5', m7', hsession', hproved⟩
  obtain ⟨rfl, rfl, rfl⟩ : m3 = m3' ∧ m5 = m5' ∧ m7 = m7' := by
    rw [hsession] at hsession'
    simpa using hsession'
  obtain ⟨hash, nonce, hhash, hnonce, hopens⟩ := hproved.second
  rw [hhash.unique hash2, hnonce.unique hes2, hm3] at hopens
  have hnonces := congrArg (fun b : Buf 16 => b.bytes.head?) (headCrypt_hashOf_inj hopens)
  revert hnonces
  decide

end RalinkSdk.Wps
