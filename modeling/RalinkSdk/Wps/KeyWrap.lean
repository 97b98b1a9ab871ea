import RalinkSdk.Wps.Mandatory
import RalinkSdk.Wps.PinProof

/-!
# The authenticator of encrypted settings

Settings end with a Key-Wrap-Authenticator, the HMAC over the settings before it.
`WscParseEncrSettings` compares it and only reports a difference, and `WscProcessCredential` does
not look at it: whether a message is accepted does not depend on it.
-/

namespace RalinkSdk.Wps

open Lib Crypt Option List

variable (crypt : CryptFns)

/-! ## Messages that are authenticated throughout -/

/-- The settings are decrypted to this text. -/
def Decrypts (c : WscCtrl) (value plain : List Byte) : Prop :=
  ∃ c' encrLen, decryptSettings crypt value.length value c = some (c', encrLen) ∧
    c'.regData.apEncrSettings.bytes.take encrLen.toNat = plain

/-- The decrypted settings end with the Key-Wrap-Authenticator of what stands before. -/
def SettingsVerified (c : WscCtrl) (value : List Byte) : Prop :=
  ∃ settings, (∀ a ∈ settings, a.Fits) ∧
    Decrypts crypt c value (encodeAll (wrapped crypt c.regData.authKey settings))

/-- The message ends with the Authenticator of the last message sent and of what stands before, and
    it has encrypted settings, which are all verified. -/
def Verified (c : WscCtrl) (msg : List Byte) : Prop :=
  ∃ body, (∀ a ∈ body, a.Fits) ∧
    msg = encodeAll (authenticated crypt c.regData.authKey c.regData.lastTx.bytes body) ∧
    (∃ a ∈ body, a.type = WscId.encrSettings.type) ∧
    ∀ a ∈ body, a.type = WscId.encrSettings.type → SettingsVerified crypt c a.value

/-! ## Messages that are accepted -/

/-- The Authenticator that is expected. -/
def macOf (c : WscCtrl) (msg : List Byte) : Buf 8 :=
  (crypt.rtHmacSha256 c.regData.authKey.bytes
    (c.regData.lastTx.bytes ++ msg.take (msg.length - 12))).first 8 authenticator_le_digest

/-- What is checked of a message: the number of its mandatory attributes, and what the walk over it
    leaves in `Hmac` and in the data of the run. -/
def Passes (walked : Option Parse) (mandatory : List WscId) (proof : WscRegData → Prop)
    (c : WscCtrl) (msg : List Byte) : Prop :=
  AllOdd mandatory msg ∧
    ∃ s, walked = some s ∧ s.hmac = macOf crypt c msg ∧ proof s.ctrl.regData

theorem checkMessage_noError_iff {s : Parse} {c c' : WscCtrl} {m : WscMessage} {msg : List Byte}
    (hm : m.Holds msg) (hkeeps : KeepsCheck c m s.ctrl) {rv : WscError}
    (h : checkMessage crypt s = some (rv, c')) :
    rv = .noError ↔ s.wanting = false ∧ s.hmac = macOf crypt c msg := by
  obtain ⟨ok, hok, h⟩ := bind_eq_some_iff.mp h
  have hmac : ok = true ↔ s.hmac = macOf crypt c msg := by
    unfold checkHmac at hok
    split_ifs at hok
    obtain rfl := some.inj hok
    rw [hkeeps.lastRx, hm.length, hm.bytes, hkeeps.lastTx, hkeeps.authKey, decide_eq_true_eq]
    exact eq_comm
  rw [← hmac]
  cases hwanting : s.wanting with
  | true =>
    rw [hwanting, if_pos rfl] at h
    cases h
    exact iff_of_false (by decide) fun hall => absurd hall.1 (by decide)
  | false =>
    rw [hwanting, if_neg Bool.false_ne_true] at h
    cases ok with
    | true =>
      cases h
      exact iff_of_true rfl ⟨rfl, rfl⟩
    | false =>
      cases h
      exact iff_of_false (by decide) fun hall => absurd hall.2 (by decide)

/-- A walk that leaves the messages and the key as they are. -/
def Keeps (c c' : WscCtrl) : Prop := KeepsCheck c c.regData.lastRx c'

theorem Keeps.refl (c : WscCtrl) : Keeps c c := ⟨rfl, rfl, rfl⟩

theorem Keeps.trans {a b c : WscCtrl} (h₁ : Keeps a b) (h₂ : Keeps b c) : Keeps a c :=
  ⟨h₂.lastTx.trans h₁.lastTx, h₂.lastRx.trans h₁.lastRx, h₂.authKey.trans h₁.authKey⟩

theorem NonceFrame.keeps {c c' : WscCtrl} (h : NonceFrame c c') : Keeps c c' := by
  obtain ⟨p, ap, es1, es2, rs1, rs2, rfl⟩ := h
  exact ⟨rfl, rfl, rfl⟩

theorem parseM4_keeps {id : WscId} {wscLen : Nat} {pData : List Byte} {s s' : Parse}
    (h : parseM4 crypt id wscLen pData s = some s') : Keeps s.ctrl s'.ctrl := by
  cases id with
  | encrSettings => exact (parseEncrSettings_frame crypt h).keeps
  | _ =>
    first
    | obtain ⟨_, rfl⟩ := of_bind_some h; exact ⟨rfl, rfl, rfl⟩
    | cases h; exact Keeps.refl _

theorem parseM6_keeps {id : WscId} {wscLen : Nat} {pData : List Byte} {s s' : Parse}
    (h : parseM6 crypt id wscLen pData s = some s') : Keeps s.ctrl s'.ctrl := by
  cases id with
  | encrSettings => exact (parseEncrSettings_frame crypt h).keeps
  | _ =>
    first
    | obtain ⟨_, rfl⟩ := of_bind_some h; exact ⟨rfl, rfl, rfl⟩
    | cases h; exact Keeps.refl _

theorem receive_keeps {mandatory : List WscId}
    {handle : WscId → Nat → List Byte → Parse → Option Parse}
    (hhandle : ∀ id len p s s', handle id len p s = some s' → Keeps s.ctrl s'.ctrl)
    {msg : List Byte} {c : WscCtrl} {s : Parse} (h : receive mandatory handle msg c = some s) :
    ∃ m, m.Holds msg ∧ KeepsCheck c m s.ctrl := by
  obtain ⟨m, hm, hkeeps⟩ := receive_frame Keeps.refl
    (fun _ _ _ _ _ _ hs h => hs.trans (hhandle _ _ _ _ _ h)) h
  exact ⟨m, hm, hkeeps.lastTx, hkeeps.lastRx, hkeeps.authKey⟩

section

variable {mandatory : List WscId} {handle : WscId → Nat → List Byte → Parse → Option Parse}
  {msg : List Byte} {c c' : WscCtrl} {s : Parse} {rv : WscError}

/-- **The last of the checks** for M4 to M7. -/
theorem checkMessage_receive_noError_iff (htoggles : Toggles mandatory handle)
    (hhandle : ∀ id len p s s', handle id len p s = some s' → Keeps s.ctrl s'.ctrl)
    (hrun : receive mandatory handle msg c = some s) (h : checkMessage crypt s = some (rv, c')) :
    rv = .noError ↔ AllOdd mandatory msg ∧ s.hmac = macOf crypt c msg := by
  obtain ⟨m, hm, hkeeps⟩ := receive_keeps hhandle hrun
  rw [checkMessage_noError_iff crypt hm hkeeps h, ← Bool.not_eq_true,
    parsed_wanting_iff htoggles hrun, not_not]

theorem passes_iff (hrun : receive mandatory handle msg c = some s) (proof : WscRegData → Prop) :
    Passes crypt (receive mandatory handle msg c) mandatory proof c msg ↔
      (AllOdd mandatory msg ∧ s.hmac = macOf crypt c msg) ∧ proof s.ctrl.regData := by
  rw [Passes, hrun]
  constructor
  · rintro ⟨hodd, s', hs', hmac, hproof⟩
    cases hs'
    exact ⟨⟨hodd, hmac⟩, hproof⟩
  · rintro ⟨⟨hodd, hmac⟩, hproof⟩
    exact ⟨hodd, s, rfl, hmac, hproof⟩

end

/-- The registrar has proved the first half of the PIN. -/
def ProvesR1 (r : WscRegData) : Prop := r.rHash1 = r.hashOf crypt r.rs1 r.psk1

/-- The enrollee has proved the first half of the PIN. -/
def ProvesE1 (r : WscRegData) : Prop := r.eHash1 = r.hashOf crypt r.es1 r.psk1

/-- The registrar has proved the second half of the PIN. -/
def ProvesR2 (r : WscRegData) : Prop := r.rHash2 = r.hashOf crypt r.rs2 r.psk2

variable {msg : List Byte} {c c' : WscCtrl} {rv : WscError}

theorem processMessageM4_noError_iff (h : processMessageM4 crypt msg c = some (rv, c')) :
    rv = .noError ↔
      Passes crypt (receive mandatoryM4 (parseM4 crypt) msg c) mandatoryM4 (ProvesR1 crypt) c
        msg := by
  obtain ⟨s, hrun, h⟩ := bind_eq_some_iff.mp h
  rw [passes_iff crypt hrun]
  dsimp only at h
  split at h
  next hhash =>
    cases h
    exact iff_of_false (by decide) fun hall => hhash hall.2
  next hhash =>
    rw [checkMessage_receive_noError_iff crypt (toggles_parseM4 crypt)
      (fun _ _ _ _ _ => parseM4_keeps crypt) hrun h]
    exact (and_iff_left (not_not.mp hhash)).symm

theorem processMessageM5_noError_iff (h : processMessageM5 crypt msg c = some (rv, c')) :
    rv = .noError ↔
      Passes crypt (receive mandatoryM5 (parseM5 crypt) msg c) mandatoryM5 (ProvesE1 crypt) c
        msg := by
  obtain ⟨s, hrun, h⟩ := bind_eq_some_iff.mp h
  obtain ⟨result, hresult, h⟩ := bind_eq_some_iff.mp h
  rw [passes_iff crypt hrun]
  dsimp only at h
  split at h
  next hhash =>
    cases h
    exact iff_of_false (by decide) fun hall => hhash hall.2
  next hhash =>
    cases h
    rw [checkMessage_receive_noError_iff crypt (toggles_parseM5 crypt)
      (fun _ _ _ _ _ h => (parseM5_frame crypt h).keeps) hrun hresult]
    exact (and_iff_left (not_not.mp hhash)).symm

theorem processMessageM6_noError_iff (h : processMessageM6 crypt msg c = some (rv, c')) :
    rv = .noError ↔
      Passes crypt (receive mandatoryM6 (parseM6 crypt) msg c) mandatoryM6 (ProvesR2 crypt) c
        msg := by
  obtain ⟨s, hrun, h⟩ := bind_eq_some_iff.mp h
  rw [passes_iff crypt hrun]
  dsimp only at h
  split at h
  next hhash =>
    cases h
    exact iff_of_false (by decide) fun hall => hhash hall.2
  next hhash =>
    rw [checkMessage_receive_noError_iff crypt (toggles_parseM6 crypt)
      (fun _ _ _ _ _ => parseM6_keeps crypt) hrun h]
    exact (and_iff_left (not_not.mp hhash)).symm

theorem toggles_parseM7 : Toggles [] (parseM7 crypt) := by
  intro id len p s s' h
  have hkeep : s'.fieldCheck = s.fieldCheck := by
    cases id with
    | encrSettings =>
      unfold parseM7 at h
      dsimp only at h
      split at h
      · cases h
        rfl
      · obtain ⟨⟨c, encrLen⟩, -, h⟩ := bind_eq_some_iff.mp h
        obtain ⟨_, rfl⟩ := of_bind_some h
        rfl
    | _ =>
      first
      | obtain ⟨_, rfl⟩ := of_bind_some h; rfl
      | cases h; rfl
  rw [hkeep, if_neg fun hall => not_mem_nil hall.1]

theorem processMessageM7_noError_iff (h : processMessageM7 crypt msg c = some (rv, c')) :
    rv = .noError ↔
      Passes crypt (receive [] (parseM7 crypt) msg c) [] (fun _ => True) c msg := by
  obtain ⟨s, hrun, h⟩ := bind_eq_some_iff.mp h
  rw [passes_iff crypt hrun, and_true]
  exact checkMessage_receive_noError_iff crypt (toggles_parseM7 crypt)
    (fun _ _ _ _ _ h => (parseM7_frame crypt h).keeps) hrun h

/-! ## M8 -/

/-- The walk over M8, unless it ends at a credential that is refused. -/
def receiveM8 (hmac : Buf 8) (msg : List Byte) (c : WscCtrl) : Option Parse := do
  let s ← startParse [] hmac msg c
  match ← walk (dispatchStop (parseM8 crypt)) s.ctrl.regData.lastRx.length
    s.ctrl.regData.lastRx.data.bytes s with
  | .inl s => some s
  | .inr _ => none

theorem wscProcessCredential_frame {plainLength : Nat} {c c' : WscCtrl} {ok : Bool}
    (h : wscProcessCredential plainLength c = some (ok, c')) : ∃ p, c' = c.setProfile p := by
  obtain ⟨walked, -, h⟩ := bind_eq_some_iff.mp h
  cases walked with
  | inr s =>
    cases h
    exact ⟨_, rfl⟩
  | inl s =>
    dsimp only at h
    split_ifs at h
    · cases h
      exact ⟨_, rfl⟩
    · cases h
      exact ⟨_, rfl⟩
    · cases h
      exact ⟨_, rfl⟩

theorem parseM8_keeps {id : WscId} {wscLen : Nat} {pData : List Byte} {s s' : Parse} {skip : Nat}
    (h : parseM8 crypt id wscLen pData s = some (.next skip s')) :
    Keeps s.ctrl s'.ctrl ∧ s'.fieldCheck = s.fieldCheck := by
  cases id with
  | encrSettings =>
    unfold parseM8 at h
    dsimp only at h
    split at h
    · cases h
      exact ⟨Keeps.refl _, rfl⟩
    · obtain ⟨⟨c, encrLen⟩, hdecrypt, h⟩ := bind_eq_some_iff.mp h
      obtain ⟨⟨ok, c'⟩, hprocess, h⟩ := bind_eq_some_iff.mp h
      obtain ⟨p, rfl⟩ := wscProcessCredential_frame hprocess
      cases ok with
      | true =>
        cases h
        exact ⟨(decryptSettings_frame crypt hdecrypt).keeps.trans ⟨rfl, rfl, rfl⟩, rfl⟩
      | false => cases h
  | authenticator =>
    obtain ⟨hmac, -, h⟩ := bind_eq_some_iff.mp h
    cases h
    exact ⟨Keeps.refl _, rfl⟩
  | _ =>
    cases h
    exact ⟨Keeps.refl _, rfl⟩

theorem receiveM8_keeps {hmac : Buf 8} {s : Parse} (h : receiveM8 crypt hmac msg c = some s) :
    s.wanting = false ∧ ∃ m, m.Holds msg ∧ KeepsCheck c m s.ctrl := by
  obtain ⟨s₀, hstart, h⟩ := bind_eq_some_iff.mp h
  obtain ⟨m, hsave, hs₀⟩ := bind_eq_some_iff.mp hstart
  obtain ⟨data, hstore, hm⟩ := bind_eq_some_iff.mp hsave
  cases hm
  cases hs₀
  obtain ⟨walked, hwalk, h⟩ := bind_eq_some_iff.mp h
  cases walked with
  | inr s₁ => cases h
  | inl s₁ =>
    cases h
    let c₁ := c.onReg fun r => { r with lastRx := ⟨msg.length, data⟩ }
    obtain ⟨hkeeps, hfield⟩ : Keeps c₁ s.ctrl ∧ s.fieldCheck = fun _ => false := by
      refine walk_preserves (P := fun s => Keeps c₁ s.ctrl ∧ s.fieldCheck = fun _ => false)
        (fun type len p s skip s' hs h => ?_) ⟨Keeps.refl c₁, rfl⟩ hwalk
      unfold dispatchStop at h
      split at h
      · obtain ⟨hkeeps, hfield⟩ := parseM8_keeps crypt h
        exact ⟨hs.1.trans hkeeps, hfield.trans hs.2⟩
      · cases h
        exact hs
    exact ⟨Parse.wanting_of_seen hfield, ⟨msg.length, data⟩,
      ⟨rfl, _, Buf.bytes_of_store hstore⟩, hkeeps.lastTx, hkeeps.lastRx, hkeeps.authKey⟩

theorem processMessageM8_noError_iff {hmac : Buf 8}
    (h : processMessageM8 crypt hmac msg c = some (rv, c')) :
    rv = .noError ↔ Passes crypt (receiveM8 crypt hmac msg c) [] (fun _ => True) c msg := by
  obtain ⟨s₀, hstart, h⟩ := bind_eq_some_iff.mp h
  obtain ⟨walked, hwalk, h⟩ := bind_eq_some_iff.mp h
  have hreceive : receiveM8 crypt hmac msg c = walked.elim some fun _ => none := by
    rw [receiveM8, hstart, bind_eq_bind, bind_some, hwalk]
    cases walked with
    | inl s => rfl
    | inr s => rfl
  cases walked with
  | inr s =>
    cases h
    refine iff_of_false (by decide) ?_
    rintro ⟨-, s', hs', -⟩
    rw [hreceive] at hs'
    cases hs'
  | inl s =>
    obtain ⟨hwanting, m, hm, hkeeps⟩ := receiveM8_keeps crypt hreceive
    rw [checkMessage_noError_iff crypt hm hkeeps h, Passes, hreceive]
    constructor
    · rintro ⟨-, hmac⟩
      exact ⟨fun id hid => absurd hid not_mem_nil, s, rfl, hmac, trivial⟩
    · rintro ⟨-, s', hs', hmac, -⟩
      cases hs'
      exact ⟨hwanting, hmac⟩

/-! ## The results -/

/-- A message without an error is authenticated throughout. -/
def OnlyVerified (c : WscCtrl) (msg : List Byte) (rv : WscError) : Prop :=
  rv = .noError → Verified crypt c msg

theorem onlyVerified_iff {passes : Prop} (h : rv = .noError ↔ passes) :
    OnlyVerified crypt c msg rv ↔ Verified crypt c msg ∨ ¬ passes := by
  rw [OnlyVerified, h, imp_iff_or_not]

theorem decrypts_settingsAttr {c : WscCtrl} {plain : List Attr}
    (hsize : (encodeAll plain).length ≤ 1000) (iv : Buf 16) {text : List Byte}
    (h : Decrypts crypt c (settingsAttr crypt c.regData.keyWrapKey iv plain).value text) :
    text = encodeAll plain := by
  obtain ⟨ap, rest, hap, hdecrypt⟩ := decryptSettings_encrypt crypt c hsize iv []
  rw [append_nil] at hdecrypt
  obtain ⟨c', encrLen, hdecrypt', rfl⟩ := h
  cases hdecrypt.symm.trans hdecrypt'
  show ap.bytes.take (encodeAll plain).length = _
  rw [hap, take_left]

/-- **Settings with a wrong Key-Wrap-Authenticator** are not verified. -/
theorem not_verified_of_settings {c : WscCtrl} {front settings : List Attr} {keyWrapAuth : Buf 8}
    (hwrong : keyWrapAuth ≠ keyWrapAuthOf crypt c.regData.authKey settings) (iv : Buf 16)
    (hsize : (encodeAll (settings ++ [⟨WscId.keyWrapAuth.type, keyWrapAuth.bytes⟩])).length ≤ 1000)
    (hfront : (encodeAll front).length ≤ 1000) :
    ¬ Verified crypt c (encodeAll (authenticated crypt c.regData.authKey c.regData.lastTx.bytes
      (front ++ [settingsAttr crypt c.regData.keyWrapKey iv
        (settings ++ [⟨WscId.keyWrapAuth.type, keyWrapAuth.bytes⟩])]))) := by
  rintro ⟨body, hbody, hmsg, -, hverified⟩
  set plain := settings ++ [⟨WscId.keyWrapAuth.type, keyWrapAuth.bytes⟩] with hplain
  set a := settingsAttr crypt c.regData.keyWrapKey iv plain with ha
  have hlen : a.value.length ≤ 1032 := by
    simp [ha]
    omega
  have hsame : front ++ [a] = body := by
    have heq := encodeAll_injective (fits_of_length (by simp [authenticated]; omega))
      (fun x hx => by
        rcases mem_append.mp hx with hx | hx
        · exact hbody x hx
        · rw [mem_singleton.mp hx]
          exact lt_of_eq_of_lt (Buf.size _) (by decide)) hmsg
    exact (append_inj' heq rfl).1
  obtain ⟨settings', hfits, hdecrypts⟩ := hverified a (hsame ▸ by simp) rfl
  have htext := decrypts_settingsAttr crypt hsize iv hdecrypts
  have hwrapped : wrapped crypt c.regData.authKey settings' = plain := by
    refine encodeAll_injective ?_ (fits_of_length (lt_of_le_of_lt hsize (by decide))) htext
    intro x hx
    rcases mem_append.mp hx with hx | hx
    · exact hfits x hx
    · rw [mem_singleton.mp hx]
      exact lt_of_eq_of_lt (Buf.size _) (by decide)
  obtain ⟨rfl, hlast⟩ := append_inj' hwrapped rfl
  apply hwrong
  injection hlast with hattr
  injection hattr with _ hbytes
  exact Buf.ext hbytes.symm

/-- The credential "ap" with the key "password", for a station. -/
def apSettings : List Attr :=
  [⟨WscId.credential.type, encodeAll (credentialList [0x61, 0x70] 0x0020 0x0008 1
    [0x70, 0x61, 0x73, 0x73, 0x77, 0x6F, 0x72, 0x64] (Buf.fill 6 0x0c))⟩]

def m8WrongKeyWrap : List Byte :=
  encodeAll (authenticated xorCrypt staEnrollee.regData.authKey []
    (frontEncr 0x10 0x0C .enrolleeNonce (Buf.fill 16 0) ++
      [settingsAttr xorCrypt staEnrollee.regData.keyWrapKey (Buf.fill 16 8)
        (apSettings ++ [⟨WscId.keyWrapAuth.type, (Buf.fill 8 0x55).bytes⟩])]))

theorem processMessageM8_m8WrongKeyWrap : ∃ c',
    processMessageM8 xorCrypt (Buf.fill 8 0) m8WrongKeyWrap staEnrollee = some (.noError, c') := by
  have htx : staEnrollee.regData.lastTx.Holds [] := ⟨rfl, _, rfl⟩
  have hext : Extra [] := ⟨fun a ha => absurd ha not_mem_nil, by decide⟩
  have hssid : Printable (([0x61, 0x70] : List Byte).takeWhile (· ≠ 0)) := by decide
  obtain ⟨m, ap, p, -, hrun⟩ := processMessageM8_accepts xorCrypt htx (by decide) hext 0x10
    (Buf.fill 16 0) (by decide) hssid (by decide)
    (show Printable [0x70, 0x61, 0x73, 0x73, 0x77, 0x6F, 0x72, 0x64] by decide) 0x0020
    (show (0x0008 : BitVec 16) ≠ 0x0002 by decide) 1 (Buf.fill 6 0x0c) true (Buf.fill 8 0x55)
    (Buf.fill 16 8) (Buf.fill 8 0)
  exact ⟨_, hrun⟩

theorem not_verified_m8WrongKeyWrap : ¬ Verified xorCrypt staEnrollee m8WrongKeyWrap :=
  not_verified_of_settings xorCrypt (c := staEnrollee) (by decide +kernel) (Buf.fill 16 8)
    (by decide +kernel) (by decide)

end RalinkSdk.Wps
