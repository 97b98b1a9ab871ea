import RalinkSdk.Wps.Built

/-!
# Two devices agree on the keys

An undisturbed exchange of M1 to M8 between an enrollee and a registrar that both run the driver:
each builds its messages from what it has received, and processes those of the other.  After each
message the two sides are in a stage, which says on what they agree.
-/

namespace RalinkSdk.Wps

open Lib Crypt List Option
open Buf (fill)

variable (crypt : CryptFns)

/-- What the two sides choose: their nonces, the private key of the registrar, the memory that
    serves as initialization vectors, the profiles that the configuration gives, the BSSID, and the
    memory in which M8 has its Authenticator. -/
structure Choices where
  enrolleeNonce : Buf 16
  registrarNonce : Buf 16
  random : Buf 192
  iv4 : Buf 16
  iv5 : Buf 16
  iv6 : Buf 16
  iv7 : Buf 16
  iv8 : Buf 16
  cfgE : WscProfile
  cfgR : WscProfile
  bssid : Buf 6
  hmac8 : Buf 8

/-- A message from one side to the other. -/
def deliver (build : WscCtrl → Option (List Attr × WscCtrl))
    (process : List Byte → WscCtrl → Option (WscError × WscCtrl)) (sender receiver : WscCtrl) :
    Option (WscError × WscCtrl × WscCtrl) := do
  let (msg, sender) ← build sender
  let (error, receiver) ← process (encodeAll msg) receiver
  some (error, sender, receiver)

/-- The exchange of M1 to M8, with the results of the eight `ProcessMessage` functions. -/
def exchange (x : Choices) (e r : WscCtrl) : Option (List WscError × WscCtrl × WscCtrl) := do
  let (error1, e, r) ← deliver (buildMessageM1 x.enrolleeNonce) (processMessageM1 crypt x.random) e r
  let (error2, r, e) ← deliver (buildMessageM2 crypt x.registrarNonce) (processMessageM2 crypt) r e
  let (error3, e, r) ← deliver (buildMessageM3 crypt) (processMessageM3 crypt) e r
  let (error4, r, e) ← deliver (buildMessageM4 crypt x.iv4) (processMessageM4 crypt) r e
  let (error5, e, r) ← deliver (buildMessageM5 crypt x.iv5) (processMessageM5 crypt) e r
  let (error6, r, e) ← deliver (buildMessageM6 crypt x.iv6) (processMessageM6 crypt) r e
  let (error7, e, r) ← deliver (buildMessageM7 crypt x.iv7 x.cfgE) (processMessageM7 crypt) e r
  let (error8, r, e) ← deliver (buildMessageM8 crypt x.iv8 x.cfgR x.bssid)
    (processMessageM8 crypt x.hmac8) r e
  some ([error1, error2, error3, error4, error5, error6, error7, error8], e, r)

theorem deliver_eq {build : WscCtrl → Option (List Attr × WscCtrl)}
    {process : List Byte → WscCtrl → Option (WscError × WscCtrl)}
    {sender sender' receiver receiver' : WscCtrl} {msg : List Attr} {error : WscError}
    (hbuild : build sender = some (msg, sender'))
    (hprocess : process (encodeAll msg) receiver = some (error, receiver')) :
    deliver build process sender receiver = some (error, sender', receiver') := by
  simp only [deliver, hbuild, hprocess, bind, bind_some]

/-! ## Before the exchange -/

/-- The registrar has a printable credential without WEP to send, whether it takes the one of the
    configuration or, in a station, its profile. -/
structure Offers (cfg : WscProfile) (r : WscCtrl) : Prop where
  cfg : cfg.first.Plain
  profile : r.opMode = .staMode → r.wscProfile.profileCnt ≠ 0 → r.wscProfile.first.Plain

/-- Two devices that can run the exchange. -/
structure Paired (x : Choices) (e r : WscCtrl) : Prop where
  pin : e.regData.pin = r.regData.pin
  pinCodeLen : e.regData.pinCodeLen = r.regData.pinCodeLen
  terminatedE : Terminated e.regData.selfInfo
  terminatedR : Terminated r.regData.selfInfo
  extraE : PlainExtra e
  extraR : PlainExtra r
  /-- M1 goes over EAP and not over UPnP, whose messages are not saved. -/
  overEap : ¬ (e.bUpnpMsgTimerRunning ∨ (e.wscUseUpnp ∧ e.eapMsgRunning))
  /-- The Diffie-Hellman step gives both sides the same secret. -/
  secret : crypt.rtDhSecretKeyGenerate (crypt.rtDhPublicKeyGenerate x.random)
    e.regData.enrolleeRandom = crypt.rtDhSecretKeyGenerate e.regData.pke x.random
  cfgE : x.cfgE.first.Fits
  offers : Offers x.cfgR r

theorem WscCredential.Plain.withMacAddr {cred : WscCredential} (h : cred.Plain) (macAddr : Buf 6) :
    ({ cred with macAddr } : WscCredential).Plain :=
  ⟨h.fits, h.ssid, h.key, h.noWep⟩

theorem Offers.profileM8 {cfg : WscProfile} {r : WscCtrl} (h : Offers cfg r) (bssid : Buf 6) :
    (Wps.profileM8 cfg bssid r).first.Plain := by
  unfold Wps.profileM8
  cases hmode : r.opMode with
  | apMode => exact h.cfg
  | staMode =>
    dsimp only
    rw [WscProfile.first_setFirst]
    apply WscCredential.Plain.withMacAddr
    split_ifs with hcfg
    · exact h.cfg
    · exact h.profile hmode fun hcnt => hcfg (.inl hcnt)

/-! ## The stages -/

/-- The last message from one side to the other, as both have stored it. -/
def Sent (sender receiver : WscCtrl) : Prop :=
  ∃ msg : List Byte, msg.length ≤ 1200 ∧ sender.regData.lastTx.Holds msg ∧
    receiver.regData.lastRx.Holds msg

/-- After M1 the registrar knows the enrollee, and both can derive the keys. -/
structure AfterM1 (x : Choices) (e r : WscCtrl) : Prop where
  pin : e.regData.pin = r.regData.pin
  pinCodeLen : e.regData.pinCodeLen = r.regData.pinCodeLen
  terminatedR : Terminated r.regData.selfInfo
  extraE : PlainExtra e
  extraR : PlainExtra r
  offers : Offers x.cfgR r
  sent : Sent e r
  pke : e.regData.pke = r.regData.pke
  nonce : e.regData.selfNonce = r.regData.enrolleeNonce
  macAddr : e.regData.selfInfo.macAddr = r.regData.peerInfo.macAddr
  secret : crypt.rtDhSecretKeyGenerate r.regData.pkr e.regData.enrolleeRandom =
    crypt.rtDhSecretKeyGenerate r.regData.pke r.regData.enrolleeRandom

/-- From M2 on both sides have the same keys. -/
structure Session (x : Choices) (e r : WscCtrl) : Prop where
  pin : e.regData.pin = r.regData.pin
  pinCodeLen : e.regData.pinCodeLen = r.regData.pinCodeLen
  extraE : PlainExtra e
  extraR : PlainExtra r
  offers : Offers x.cfgR r
  pke : e.regData.pke = r.regData.pke
  pkr : e.regData.pkr = r.regData.pkr
  authKey : e.regData.authKey = r.regData.authKey
  keyWrapKey : e.regData.keyWrapKey = r.regData.keyWrapKey
  emsk : e.regData.emsk = r.regData.emsk

variable {x : Choices} {e r : WscCtrl}

theorem Session.hashOf (h : Session x e r) (snonce psk : Buf 16) :
    e.regData.hashOf crypt snonce psk = r.regData.hashOf crypt snonce psk := by
  simp only [WscRegData.hashOf, h.authKey, h.pke, h.pkr]

theorem Session.pskHalf1 (h : Session x e r) :
    e.regData.pskHalf1 crypt = r.regData.pskHalf1 crypt := by
  simp only [WscRegData.pskHalf1, WscRegData.pinHalf1, h.authKey, h.pin, h.pinCodeLen]

theorem Session.pskHalf2 (h : Session x e r) :
    e.regData.pskHalf2 crypt = r.regData.pskHalf2 crypt := by
  simp only [WscRegData.pskHalf2, WscRegData.pinHalf2, h.authKey, h.pin, h.pinCodeLen]

/-- After M3 the enrollee has its halves of the PIN, and the registrar the first hash. -/
structure AfterM3 (x : Choices) (e r : WscCtrl) : Prop extends Session x e r where
  sent : Sent e r
  psk1 : e.regData.psk1 = r.regData.pskHalf1 crypt
  psk2 : e.regData.psk2 = r.regData.pskHalf2 crypt
  eHash1 : r.regData.eHash1 = r.regData.hashOf crypt e.regData.es1 e.regData.psk1

/-- After M4 the registrar has the first half of the PIN too, and the enrollee the second hash. -/
structure AfterM4 (x : Choices) (e r : WscCtrl) : Prop extends Session x e r where
  sent : Sent r e
  psk1 : r.regData.psk1 = e.regData.psk1
  eHash1 : r.regData.eHash1 = r.regData.hashOf crypt e.regData.es1 e.regData.psk1
  rHash2 : e.regData.rHash2 = e.regData.hashOf crypt r.regData.es2 e.regData.psk2

/-- After M5 the second hash still waits for its nonce. -/
structure AfterM5 (x : Choices) (e r : WscCtrl) : Prop extends Session x e r where
  sent : Sent e r
  rHash2 : e.regData.rHash2 = e.regData.hashOf crypt r.regData.es2 e.regData.psk2

/-! ## One message -/

theorem deliver_m1 (h : Paired crypt x e r) :
    ∃ e' r', deliver (buildMessageM1 x.enrolleeNonce) (processMessageM1 crypt x.random) e r =
      some (.noError, e', r') ∧ AfterM1 crypt x e' r' := by
  obtain ⟨t, scState, m, hm, hlen, hbuild⟩ :=
    buildMessageM1_eq h.terminatedE h.extraE h.overEap x.enrolleeNonce
  set e₁ := withNonceE e x.enrolleeNonce scState
  have hextra : PlainExtra e₁ := h.extraE
  obtain ⟨m', peer, devPwdId, bConfiguredAp, hm', hmac, hprocess⟩ := processMessageM1_accepts crypt
    e₁ t hextra.v2Attrs hextra.extraM1 hextra.value_ne_nil x.random r
  refine ⟨_, _, deliver_eq hbuild hprocess, ?_⟩
  constructor
  case pin => exact h.pin
  case pinCodeLen => exact h.pinCodeLen
  case terminatedR =>
    have ht := h.terminatedR
    exact ⟨ht.manufacturer, ht.modelName, ht.modelNumber, ht.serialNumber, ht.deviceName⟩
  case extraE => exact h.extraE
  case extraR => exact h.extraR
  case offers => exact ⟨h.offers.cfg, h.offers.profile⟩
  case sent => exact ⟨_, le_trans hlen (by decide), hm, hm'⟩
  case pke => rfl
  case nonce => rfl
  case macAddr => exact hmac.symm
  case secret => exact h.secret

theorem AfterM1.keys (h : AfterM1 crypt x e r) (nonce : Buf 16) :
    let kR := (withNonceR crypt r nonce).regData.keysOfM1 crypt
    let kE := e.regData.keysOfM2 crypt nonce r.regData.pkr
    kE.authKey = kR.authKey ∧ kE.keyWrapKey = kR.keyWrapKey ∧ kE.emsk = kR.emsk := by
  simp only [WscRegData.keysOfM1, WscRegData.keysOfM2, WscRegData.deriveKeys, withNonceR,
    WscCtrl.onReg, h.secret, h.nonce, h.macAddr, and_self]

theorem deliver_m2 (h : AfterM1 crypt x e r) :
    ∃ r' e', deliver (buildMessageM2 crypt x.registrarNonce) (processMessageM2 crypt) r e =
      some (.noError, r', e') ∧ Session x e' r' ∧ Sent r' e' := by
  obtain ⟨prev, hprev, htx, hrx⟩ := h.sent
  obtain ⟨t, m, hm, hlen, hbuild⟩ :=
    buildMessageM2_eq crypt hrx hprev h.terminatedR h.extraR x.registrarNonce
  set r₁ := withNonceR crypt r x.registrarNonce
  obtain ⟨hauth, hwrap, hemsk⟩ := h.keys crypt x.registrarNonce
  have hextra : PlainExtra r₁ := h.extraR
  obtain ⟨m', peer, hm', hprocess⟩ := processMessageM2_accepts crypt htx hprev r₁ t hextra.v2Attrs
  rw [show r₁.regData.registrarNonce = x.registrarNonce from rfl,
    show r₁.regData.pkr = r.regData.pkr from rfl, hauth] at hm' hprocess
  refine ⟨_, _, deliver_eq hbuild hprocess, ?_, ⟨_, hlen, hm, hm'⟩⟩
  constructor
  case pin => exact h.pin
  case pinCodeLen => exact h.pinCodeLen
  case extraE => exact h.extraE
  case extraR => exact h.extraR
  case offers => exact ⟨h.offers.cfg, h.offers.profile⟩
  case pke => exact h.pke
  case pkr => rfl
  case authKey => rfl
  case keyWrapKey => exact hwrap
  case emsk => exact hemsk

theorem deliver_m3 (h : Session x e r) (hsent : Sent r e) :
    ∃ e' r', deliver (buildMessageM3 crypt) (processMessageM3 crypt) e r =
      some (.noError, e', r') ∧ AfterM3 crypt x e' r' := by
  obtain ⟨prev, hprev, htx, hrx⟩ := hsent
  obtain ⟨m, hm, hlen, hbuild⟩ := buildMessageM3_eq crypt hrx hprev h.extraE
  rw [h.authKey] at hm hlen hbuild
  obtain ⟨m', hm', hprocess⟩ := processMessageM3_accepts crypt htx hprev h.extraE.v2Attrs _ _ _ _
  refine ⟨_, _, deliver_eq hbuild hprocess, ?_⟩
  constructor
  case toSession => exact ⟨h.pin, h.pinCodeLen, h.extraE, h.extraR, ⟨h.offers.cfg, h.offers.profile⟩,
    h.pke, h.pkr, h.authKey, h.keyWrapKey, h.emsk⟩
  case sent => exact ⟨_, hlen, hm, hm'⟩
  case psk1 => exact h.pskHalf1 crypt
  case psk2 => exact h.pskHalf2 crypt
  case eHash1 => exact h.hashOf crypt _ _

theorem deliver_m4 (h : AfterM3 crypt x e r) (iv : Buf 16) :
    ∃ r' e', deliver (buildMessageM4 crypt iv) (processMessageM4 crypt) r e =
      some (.noError, r', e') ∧ AfterM4 crypt x e' r' := by
  obtain ⟨prev, hprev, htx, hrx⟩ := h.sent
  obtain ⟨m, keyWrapAuth, hm, hlen, hbuild⟩ := buildMessageM4_eq crypt hrx hprev h.extraR iv
  rw [← h.authKey, ← h.keyWrapKey] at hm hlen hbuild
  have hhash : r.regData.hashOf crypt r.regData.es1 (r.regData.pskHalf1 crypt) =
      e.regData.hashOf crypt r.regData.es1 e.regData.psk1 := by
    rw [h.psk1, h.hashOf]
  obtain ⟨m', ap, hm', hprocess⟩ := processMessageM4_accepts crypt htx hprev h.extraR.v2Attrs
    r.regData.selfInfo.version r.regData.enrolleeNonce hhash
    (r.regData.hashOf crypt r.regData.es2 (r.regData.pskHalf2 crypt)) keyWrapAuth iv
  refine ⟨_, _, deliver_eq hbuild hprocess, ?_⟩
  constructor
  case toSession => exact ⟨h.pin, h.pinCodeLen, h.extraE, h.extraR, ⟨h.offers.cfg, h.offers.profile⟩,
    h.pke, h.pkr, h.authKey, h.keyWrapKey, h.emsk⟩
  case sent => exact ⟨_, hlen, hm, hm'⟩
  case psk1 => exact h.psk1.symm
  case eHash1 => exact h.eHash1
  case rHash2 =>
    change r.regData.hashOf crypt r.regData.es2 (r.regData.pskHalf2 crypt) =
      e.regData.hashOf crypt r.regData.es2 e.regData.psk2
    rw [h.psk2, h.hashOf]

theorem deliver_m5 (h : AfterM4 crypt x e r) (iv : Buf 16) :
    ∃ e' r', deliver (buildMessageM5 crypt iv) (processMessageM5 crypt) e r =
      some (.noError, e', r') ∧ AfterM5 crypt x e' r' := by
  obtain ⟨prev, hprev, htx, hrx⟩ := h.sent
  obtain ⟨m, keyWrapAuth, hm, hlen, hbuild⟩ := buildMessageM5_eq crypt hrx hprev h.extraE iv
  rw [h.authKey, h.keyWrapKey] at hm hlen hbuild
  have hhash : r.regData.eHash1 = r.regData.hashOf crypt e.regData.es1 r.regData.psk1 := by
    rw [h.psk1, h.eHash1]
  obtain ⟨m', ap, hm', hprocess⟩ := processMessageM5_accepts crypt htx hprev h.extraE.v2Attrs
    e.regData.selfInfo.version e.regData.registrarNonce hhash keyWrapAuth iv
  refine ⟨_, _, deliver_eq hbuild hprocess, ?_⟩
  constructor
  case toSession => exact ⟨h.pin, h.pinCodeLen, h.extraE, h.extraR, ⟨h.offers.cfg, h.offers.profile⟩,
    h.pke, h.pkr, h.authKey, h.keyWrapKey, h.emsk⟩
  case sent => exact ⟨_, hlen, hm, hm'⟩
  case rHash2 => exact h.rHash2

theorem deliver_m6 (h : AfterM5 crypt x e r) (iv : Buf 16) :
    ∃ r' e', deliver (buildMessageM6 crypt iv) (processMessageM6 crypt) r e =
      some (.noError, r', e') ∧ Session x e' r' ∧ Sent r' e' := by
  obtain ⟨prev, hprev, htx, hrx⟩ := h.sent
  obtain ⟨m, keyWrapAuth, hm, hlen, hbuild⟩ := buildMessageM6_eq crypt hrx hprev h.extraR iv
  rw [← h.authKey, ← h.keyWrapKey] at hm hlen hbuild
  obtain ⟨m', ap, hm', hprocess⟩ := processMessageM6_accepts crypt htx hprev h.extraR.v2Attrs
    r.regData.selfInfo.version r.regData.enrolleeNonce h.rHash2 keyWrapAuth iv
  refine ⟨_, _, deliver_eq hbuild hprocess, ?_, ⟨_, hlen, hm, hm'⟩⟩
  exact ⟨h.pin, h.pinCodeLen, h.extraE, h.extraR, ⟨h.offers.cfg, h.offers.profile⟩, h.pke, h.pkr,
    h.authKey, h.keyWrapKey, h.emsk⟩

theorem deliver_m7 (h : Session x e r) (hsent : Sent r e)
    (iv : Buf 16) {cfg : WscProfile} (hcfg : cfg.first.Fits) :
    ∃ e' r', deliver (buildMessageM7 crypt iv cfg) (processMessageM7 crypt) e r =
      some (.noError, e', r') ∧ Session x e' r' ∧ Sent e' r' := by
  obtain ⟨prev, hprev, htx, hrx⟩ := hsent
  obtain ⟨m, keyWrapAuth, settings, profile, hsettings, hsize, hm, hlen, hbuild⟩ :=
    buildMessageM7_eq crypt hrx hprev h.extraE iv hcfg
  rw [h.authKey, h.keyWrapKey] at hm hlen hbuild
  obtain ⟨m', ap, p, hm', hprocess⟩ := processMessageM7_accepts crypt htx hprev h.extraE.v2Attrs
    e.regData.selfInfo.version e.regData.registrarNonce e.regData.es2 hsettings hsize keyWrapAuth iv
  refine ⟨_, _, deliver_eq hbuild hprocess, ?_, ⟨_, hlen, hm, hm'⟩⟩
  exact ⟨h.pin, h.pinCodeLen, h.extraE, h.extraR, ⟨h.offers.cfg, h.offers.profile⟩, h.pke, h.pkr,
    h.authKey, h.keyWrapKey, h.emsk⟩

structure SameKeys (e r : WscCtrl) : Prop where
  authKey : e.regData.authKey = r.regData.authKey
  keyWrapKey : e.regData.keyWrapKey = r.regData.keyWrapKey
  emsk : e.regData.emsk = r.regData.emsk

theorem deliver_m8 (h : Session x e r) (hsent : Sent e r)
    (iv : Buf 16) (bssid : Buf 6) (hmac : Buf 8) :
    ∃ r' e', deliver (buildMessageM8 crypt iv x.cfgR bssid) (processMessageM8 crypt hmac) r e =
      some (.noError, r', e') ∧ SameKeys e' r' := by
  obtain ⟨prev, hprev, htx, hrx⟩ := hsent
  have hcred := h.offers.profileM8 bssid
  obtain ⟨keyWrapAuth, inner, hbuild⟩ :=
    buildMessageM8_eq crypt hrx hprev h.extraR iv x.cfgR bssid hcred.fits
  set cred := (profileM8 x.cfgR bssid r).first
  dsimp only at hbuild
  rw [← h.authKey, ← h.keyWrapKey] at hbuild
  obtain ⟨m', ap, p, hm', hprocess⟩ := processMessageM8_accepts crypt htx hprev h.extraR.v2Attrs
    r.regData.selfInfo.version r.regData.enrolleeNonce (length_sentSsid cred) hcred.ssid
    (length_sentKey cred) hcred.key (offeredAuthType r.regData.peerInfo.version2 cred)
    (offeredEncrType_ne r.regData.peerInfo.version2 hcred.noWep) cred.keyIndex cred.macAddr inner
    keyWrapAuth iv hmac
  exact ⟨_, _, deliver_eq hbuild hprocess, h.authKey, h.keyWrapKey, h.emsk⟩

/-! ## The exchange -/

/-- **An undisturbed exchange succeeds.**  Every message is accepted, and both sides end with the
    same AuthKey, KeyWrapKey and EMSK. -/
theorem exchange_agrees (x : Choices) (e r : WscCtrl) (h : Paired crypt x e r) :
    ∃ e' r', exchange crypt x e r = some (List.replicate 8 .noError, e', r') ∧
      e'.regData.authKey = r'.regData.authKey ∧
      e'.regData.keyWrapKey = r'.regData.keyWrapKey ∧
      e'.regData.emsk = r'.regData.emsk := by
  obtain ⟨e₁, r₁, h₁, s₁⟩ := deliver_m1 crypt h
  obtain ⟨r₂, e₂, h₂, s₂, l₂⟩ := deliver_m2 crypt s₁
  obtain ⟨e₃, r₃, h₃, s₃⟩ := deliver_m3 crypt s₂ l₂
  obtain ⟨r₄, e₄, h₄, s₄⟩ := deliver_m4 crypt s₃ x.iv4
  obtain ⟨e₅, r₅, h₅, s₅⟩ := deliver_m5 crypt s₄ x.iv5
  obtain ⟨r₆, e₆, h₆, s₆, l₆⟩ := deliver_m6 crypt s₅ x.iv6
  obtain ⟨e₇, r₇, h₇, s₇, l₇⟩ := deliver_m7 crypt s₆ l₆ x.iv7 h.cfgE
  obtain ⟨r₈, e₈, h₈, s₈⟩ := deliver_m8 crypt s₇ l₇ x.iv8 x.bssid x.hmac8
  refine ⟨e₈, r₈, ?_, s₈.authKey, s₈.keyWrapKey, s₈.emsk⟩
  simp only [exchange, h₁, h₂, h₃, h₄, h₅, h₆, h₇, h₈, bind, Option.bind_some]
  rfl

/-! ### An exchange -/

/-- Bytes as a number, the high byte first. -/
def beNat (bytes : List Byte) : Nat := bytes.foldl (fun k b => 256 * k + b.toNat) 0

/-- The last `n` bytes of a number, the high byte first. -/
def beBuf (n k : Nat) : Buf n :=
  ⟨(range n).map fun i => BitVec.ofNat 8 (k / 256 ^ (n - 1 - i)), by simp⟩

def wpsDhPValue : List Byte :=
  [0xFF, 0xFF, 0xFF, 0xFF, 0xFF, 0xFF, 0xFF, 0xFF, 0xC9, 0x0F, 0xDA, 0xA2, 0x21, 0x68, 0xC2,
    0x34, 0xC4, 0xC6, 0x62, 0x8B, 0x80, 0xDC, 0x1C, 0xD1, 0x29, 0x02, 0x4E, 0x08, 0x8A, 0x67,
    0xCC, 0x74, 0x02, 0x0B, 0xBE, 0xA6, 0x3B, 0x13, 0x9B, 0x22, 0x51, 0x4A, 0x08, 0x79, 0x8E,
    0x34, 0x04, 0xDD, 0xEF, 0x95, 0x19, 0xB3, 0xCD, 0x3A, 0x43, 0x1B, 0x30, 0x2B, 0x0A, 0x6D,
    0xF2, 0x5F, 0x14, 0x37, 0x4F, 0xE1, 0x35, 0x6D, 0x6D, 0x51, 0xC2, 0x45, 0xE4, 0x85, 0xB5,
    0x76, 0x62, 0x5E, 0x7E, 0xC6, 0xF4, 0x4C, 0x42, 0xE9, 0xA6, 0x37, 0xED, 0x6B, 0x0B, 0xFF,
    0x5C, 0xB6, 0xF4, 0x06, 0xB7, 0xED, 0xEE, 0x38, 0x6B, 0xFB, 0x5A, 0x89, 0x9F, 0xA5, 0xAE,
    0x9F, 0x24, 0x11, 0x7C, 0x4B, 0x1F, 0xE6, 0x49, 0x28, 0x66, 0x51, 0xEC, 0xE4, 0x5B, 0x3D,
    0xC2, 0x00, 0x7C, 0xB8, 0xA1, 0x63, 0xBF, 0x05, 0x98, 0xDA, 0x48, 0x36, 0x1C, 0x55, 0xD3,
    0x9A, 0x69, 0x16, 0x3F, 0xA8, 0xFD, 0x24, 0xCF, 0x5F, 0x83, 0x65, 0x5D, 0x23, 0xDC, 0xA3,
    0xAD, 0x96, 0x1C, 0x62, 0xF3, 0x56, 0x20, 0x85, 0x52, 0xBB, 0x9E, 0xD5, 0x29, 0x07, 0x70,
    0x96, 0x96, 0x6D, 0x67, 0x0C, 0x35, 0x4E, 0x4A, 0xBC, 0x98, 0x04, 0xF1, 0x74, 0x6C, 0x08,
    0xCA, 0x23, 0x73, 0x27, 0xFF, 0xFF, 0xFF, 0xFF, 0xFF, 0xFF, 0xFF, 0xFF]

/-- Powers modulo the prime, and simple functions in the place of the hash and the cipher. -/
def xorCrypt : CryptFns where
  rtSha256 data := beBuf 32 (beNat data)
  rtHmacSha256 key data := beBuf 32 (beNat (key ++ data))
  rtAesEncrypt key block := xorBuf block key
  rtAesDecrypt key block := xorBuf block key
  rtDhPublicKeyGenerate own := beBuf 192 (2 ^ beNat own.bytes % beNat wpsDhPValue)
  rtDhSecretKeyGenerate peer own :=
    beBuf 192 (beNat peer.bytes ^ beNat own.bytes % beNat wpsDhPValue)
  decrypt_encrypt key block := xorBuf_cancel block key

/-- The credential "ap" with the key "password", for WPA2-PSK with AES. -/
def apCredential : WscCredential where
  ssidLength := 2
  ssid := ⟨[0x61, 0x70] ++ replicate 30 0, rfl⟩
  authType := 0x0020
  encrType := 0x0008
  key := ⟨[0x70, 0x61, 0x73, 0x73, 0x77, 0x6F, 0x72, 0x64] ++ replicate 56 0, rfl⟩
  keyLength := 8
  macAddr := fill 6 0x0c
  keyIndex := 1

def plainDevice (macAddr : Buf 6) : WscDevInfo where
  version := 0x10
  version2 := 0x20
  uuid := fill 16 0x28
  macAddr
  deviceName := fill 32 0
  priDeviceType := fill 8 0
  authTypeFlags := fill 2 0
  encrTypeFlags := fill 2 0
  connTypeFlags := 0x01
  configMethods := fill 2 0
  scState := 0x02
  manufacturer := fill 64 0
  modelName := fill 32 0
  modelNumber := fill 32 0
  serialNumber := fill 32 0
  rfBand := 0x01
  osVersion := fill 4 0
  assocState := fill 2 0
  devPwdId := fill 2 0
  configError := fill 2 0

/-- The data of a device with the PIN 12345670 and a private key, before the exchange. -/
def startRegData (macAddr : Buf 6) (own : Buf 192) (es : Byte) : WscRegData where
  selfInfo := plainDevice macAddr
  peerInfo := plainDevice (fill 6 0)
  enrolleeRandom := own
  pke := xorCrypt.rtDhPublicKeyGenerate own
  pkr := fill 192 0
  secretKey := fill 192 0
  apEncrSettings := fill 1024 0
  lastTx := ⟨0, fill 2048 0⟩
  lastRx := ⟨0, fill 2048 0⟩
  pin := ⟨[0x31, 0x32, 0x33, 0x34, 0x35, 0x36, 0x37, 0x30], rfl⟩
  pinCodeLen := 8
  authKey := fill 32 0
  keyWrapKey := fill 16 0
  emsk := fill 32 0
  enrolleeNonce := fill 16 0
  registrarNonce := fill 16 0
  selfNonce := fill 16 0
  psk1 := fill 16 0
  psk2 := fill 16 0
  eHash1 := fill 32 0
  eHash2 := fill 32 0
  es1 := fill 16 es
  es2 := fill 16 (es + 1)
  rHash1 := fill 32 0
  rHash2 := fill 32 0
  rs1 := fill 16 0
  rs2 := fill 16 0

/-- A device in PIN mode before the exchange. -/
def startCtrl (opMode : OpMode) (regData : WscRegData) : WscCtrl where
  opMode
  wscMode := .pin
  wscConfigMethods := 0x268C
  wscConfStatus := 0x01
  wscState := .init
  wscPinCode := 12345670
  bWscTrigger := true
  bWscAutoTigeer := false
  wscRejectSamePinFromEnrollee := false
  wscUuidE := fill 16 0x28
  entryIfIdx := 0
  bAdhoc := false
  bConfiguredAp := false
  bCheckMultiByte := true
  wscUseUpnp := false
  eapMsgRunning := true
  bUpnpMsgTimerRunning := false
  bEnableWpsV2 := true
  bForceSetAp := false
  extraTlv := none
  wscProfile := ⟨1, fun _ => apCredential⟩
  wscM7Profile := zeroProfile
  regData

/-- A station as enrollee, whose private key is 1. -/
def staEnrollee : WscCtrl := startCtrl .staMode (startRegData (fill 6 0x5a) (beBuf 192 1) 0x11)

/-- An access point as registrar. -/
def apRegistrar : WscCtrl :=
  startCtrl .apMode (startRegData (fill 6 0x0c) (fill 192 0) 0x21)

/-- The choices of the exchange; the private key of the registrar is 2. -/
def staApChoices : Choices where
  enrolleeNonce := fill 16 0xe0
  registrarNonce := fill 16 0xa0
  random := beBuf 192 2
  iv4 := fill 16 4
  iv5 := fill 16 5
  iv6 := fill 16 6
  iv7 := fill 16 7
  iv8 := fill 16 8
  cfgE := ⟨1, fun _ => apCredential⟩
  cfgR := ⟨1, fun _ => apCredential⟩
  bssid := fill 6 0x0c
  hmac8 := fill 8 0xcc

theorem apCredential_plain : apCredential.Plain where
  fits := ⟨by decide, by decide⟩
  ssid := by
    unfold Printable
    decide
  key := by
    unfold Printable
    decide
  noWep := by decide

theorem plainDevice_terminated (macAddr : Buf 6) : Terminated (plainDevice macAddr) where
  manufacturer := mem_replicate.mpr ⟨by decide, rfl⟩
  modelName := mem_replicate.mpr ⟨by decide, rfl⟩
  modelNumber := mem_replicate.mpr ⟨by decide, rfl⟩
  serialNumber := mem_replicate.mpr ⟨by decide, rfl⟩
  deviceName := mem_replicate.mpr ⟨by decide, rfl⟩

theorem staEnrollee_paired : Paired xorCrypt staApChoices staEnrollee apRegistrar where
  pin := rfl
  pinCodeLen := rfl
  terminatedE := plainDevice_terminated _
  terminatedR := plainDevice_terminated _
  extraE := fun a ha => by cases ha
  extraR := fun a ha => by cases ha
  overEap := by decide
  secret := by decide +kernel
  cfgE := apCredential_plain.fits
  offers := ⟨apCredential_plain, fun hsta => by cases hsta⟩

theorem exchange_agrees_sta_ap : ∃ e' r', exchange xorCrypt staApChoices staEnrollee apRegistrar =
        some (List.replicate 8 .noError, e', r') ∧
      e'.regData.authKey = r'.regData.authKey ∧
      e'.regData.keyWrapKey = r'.regData.keyWrapKey ∧
      e'.regData.emsk = r'.regData.emsk :=
  exchange_agrees xorCrypt staApChoices staEnrollee apRegistrar staEnrollee_paired

end RalinkSdk.Wps
