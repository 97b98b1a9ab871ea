import RalinkSdk.Wps.Exchange

/-!
# What a message is made of

The messages M1 to M8 that `BuildMessageM1` to `BuildMessageM8` make, as lists of attributes, and
the state in which the sender is afterwards.
-/

namespace RalinkSdk.Wps

open Lib Crypt List Option

variable (crypt : CryptFns)

/-! ## The description of a device -/

/-- The strings of a device end inside their fields. -/
structure Terminated (d : WscDevInfo) : Prop where
  manufacturer : 0 ∈ d.manufacturer.bytes
  modelName : 0 ∈ d.modelName.bytes
  modelNumber : 0 ∈ d.modelNumber.bytes
  serialNumber : 0 ∈ d.serialNumber.bytes
  deviceName : 0 ∈ d.deviceName.bytes

/-- The attribute that a user adds is none that the messages know. -/
def PlainExtra (c : WscCtrl) : Prop :=
  ∀ a ∈ c.extraTlv, WscId.ofType a.type = none ∧ a.value ≠ [] ∧ a.value.length ≤ 256

@[simp] theorem appendAll_map_some (as : List Attr) : appendAll (as.map some) = some as := by
  induction as with
  | nil => rfl
  | cons a as ih => rw [map_cons, appendAll_cons_some, ih, map_some]

theorem appendString_eq {n : Nat} (id : WscId) (hlen : id.len = n) {field : Buf n}
    (hnul : 0 ∈ field.bytes) : ∃ v, v.length ≤ n ∧ appendString id field = some ⟨id.type, v⟩ := by
  have hle : (field.bytes.takeWhile (· ≠ 0)).length ≤ n := by
    have hsub := (takeWhile_sublist (fun b : Byte => decide (b ≠ 0)) (l := field.bytes)).length_le
    rwa [field.size] at hsub
  unfold appendString strlen appendWscTlv
  rw [if_pos hnul]
  set k := (field.bytes.takeWhile (· ≠ 0)).length
  have hk : (if k ≠ 0 then k else id.len) ≤ n := by
    split_ifs
    · exact hle
    · exact le_of_eq hlen
  refine ⟨field.bytes.take (if k ≠ 0 then k else id.len), ?_, ?_⟩
  · rw [length_take, field.size]
    exact Nat.min_le_right _ _
  · have hread : readBytes field.bytes (if k ≠ 0 then k else id.len) =
        some (field.bytes.take (if k ≠ 0 then k else id.len)) :=
      if_pos (by rw [field.size]; exact hk)
    simp only [bind, bind_some, hread]

theorem deviceAttrs_eq {d : WscDevInfo} (h : Terminated d) :
    ∃ t : DeviceStrings, deviceAttrs d = ((devicePairs d t).map attrOf).map some := by
  obtain ⟨manufacturer, h₁, e₁⟩ := appendString_eq (n := 64) .manufacturer rfl h.manufacturer
  obtain ⟨modelName, h₂, e₂⟩ := appendString_eq (n := 32) .modelName rfl h.modelName
  obtain ⟨modelNumber, h₃, e₃⟩ := appendString_eq (n := 32) .modelNumber rfl h.modelNumber
  obtain ⟨serialNumber, h₄, e₄⟩ := appendString_eq (n := 32) .serialNum rfl h.serialNumber
  obtain ⟨deviceName, h₅, e₅⟩ := appendString_eq (n := 32) .deviceName rfl h.deviceName
  refine ⟨⟨manufacturer, modelName, modelNumber, serialNumber, deviceName, h₁, h₂, h₃, h₄, h₅⟩, ?_⟩
  rw [deviceAttrs, e₁, e₂, e₃, e₄, e₅, appendWscTlv_buf d.priDeviceType rfl,
    appendWscTlv_buf d.assocState rfl]
  rfl

theorem flagAttrs_eq (d : WscDevInfo) : flagAttrs d = ((flagPairs d).map attrOf).map some := by
  rw [flagAttrs, appendWscTlv_buf d.authTypeFlags rfl, appendWscTlv_buf d.encrTypeFlags rfl]
  rfl

variable {c : WscCtrl}

theorem PlainExtra.extraTlv (h : PlainExtra c) : Extra c.extraTlv.toList := by
  cases htlv : c.extraTlv with
  | none => exact ⟨fun a ha => absurd ha (not_mem_nil), by decide⟩
  | some a =>
    obtain ⟨htype, -, hlen⟩ := h a htlv
    refine ⟨?_, ?_⟩
    · intro b hb
      obtain rfl := mem_singleton.mp hb
      exact .inr htype
    · simp
      omega

theorem PlainExtra.v2Attrs (h : PlainExtra c) : Extra (v2Attrs c) := by
  unfold Wps.v2Attrs
  split_ifs
  · refine ⟨?_, ?_⟩
    · rw [forall_mem_cons]
      exact ⟨.inl ⟨_, rfl⟩, h.extraTlv.isExtra⟩
    · have hlen : (encodeAll c.extraTlv.toList).length ≤ 260 := by
        cases htlv : c.extraTlv with
        | none => decide
        | some a =>
          obtain ⟨-, -, hle⟩ := h a htlv
          simp
          omega
      simp [wscGenV2Msg]
      omega
  · exact ⟨fun a ha => absurd ha not_mem_nil, by decide⟩

/-- What M1 carries behind its attributes. -/
def extraM1 (c : WscCtrl) : List Attr := if c.bEnableWpsV2 then c.extraTlv.toList else []

theorem PlainExtra.extraM1 (h : PlainExtra c) : Extra (extraM1 c) := by
  unfold Wps.extraM1
  split_ifs
  · exact h.extraTlv
  · exact ⟨fun a ha => absurd ha not_mem_nil, by decide⟩

theorem PlainExtra.value_ne_nil (h : PlainExtra c) :
    ∀ a ∈ Wps.v2Attrs c ++ Wps.extraM1 c, a.value ≠ [] := by
  have htlv : ∀ a ∈ c.extraTlv.toList, a.value ≠ [] := fun a ha => (h a (by simpa using ha)).2.1
  unfold Wps.v2Attrs Wps.extraM1
  split_ifs
  · rw [forall_mem_append, forall_mem_cons]
    refine ⟨⟨?_, htlv⟩, htlv⟩
    simp [wscGenV2Msg]
  · simp

theorem exists_saveLastTx (c : WscCtrl) {msg : List Attr} (h : (encodeAll msg).length ≤ 2048) :
    ∃ m, m.Holds (encodeAll msg) ∧
      saveLastTx c msg = some (c.onReg fun r => { r with lastTx := m }) := by
  obtain ⟨m, hsave, hm⟩ := c.regData.lastTx.exists_save h
  refine ⟨m, hm, ?_⟩
  rw [saveLastTx, hsave]
  rfl

theorem length_authenticated (authKey : Buf 32) (prev : List Byte) (body : List Attr) :
    (encodeAll (authenticated crypt authKey prev body)).length = (encodeAll body).length + 12 := by
  simp [authenticated]

/-! ## M1 and M2 -/

def withNonceE (c : WscCtrl) (selfNonce : Buf 16) (scState : Byte) : WscCtrl :=
  c.onReg fun r => { r with
    selfNonce
    enrolleeNonce := selfNonce
    selfInfo := { r.selfInfo with scState } }

def attrsM1 (e : WscCtrl) : List (Option Attr) :=
  [appendWscTlv .version [e.regData.selfInfo.version] 0,
    appendWscTlv .msgType [0x04] 0,
    appendWscTlv .uuidE e.wscUuidE.bytes 0,
    appendWscTlv .macAddr e.regData.selfInfo.macAddr.bytes 0,
    appendWscTlv .enrolleeNonce e.regData.selfNonce.bytes 0,
    appendWscTlv .publicKey e.regData.pke.bytes 0] ++
  flagAttrs e.regData.selfInfo ++
  [appendWscTlv .configMethods (be16 (sentConfigMethods e)) 0,
    appendWscTlv .scState [e.regData.selfInfo.scState] 0] ++
  deviceAttrs e.regData.selfInfo ++
  [appendWscTlv .devicePwdId e.regData.selfInfo.devPwdId.bytes 0,
    appendWscTlv .configError [0, 0] 0,
    appendWscTlv .osVersion e.regData.selfInfo.osVersion.bytes 0]

theorem appendAll_attrsM1 {e : WscCtrl} (h : Terminated e.regData.selfInfo) :
    ∃ t, appendAll (attrsM1 e) = some (bodyM1 e t) := by
  obtain ⟨t, ht⟩ := deviceAttrs_eq h
  refine ⟨t, ?_⟩
  rw [attrsM1, ht, flagAttrs_eq, appendWscTlv_buf e.wscUuidE rfl,
    appendWscTlv_buf e.regData.selfInfo.macAddr rfl, appendWscTlv_buf e.regData.selfNonce rfl,
    appendWscTlv_buf e.regData.pke rfl, appendWscTlv_buf e.regData.selfInfo.devPwdId rfl,
    appendWscTlv_buf e.regData.selfInfo.osVersion rfl]
  exact appendAll_map_some (bodyM1 e t)

theorem buildMessageM1_go (c : WscCtrl) (selfNonce : Buf 16) :
    ∃ scState, let e := withNonceE c selfNonce scState
      buildMessageM1 selfNonce c = (appendAll (attrsM1 e)).bind fun body =>
        let msg := body ++ v2Attrs e ++ extraM1 e
        if e.bUpnpMsgTimerRunning ∨ (e.wscUseUpnp ∧ e.eapMsgRunning) then some (msg, e)
        else (saveLastTx e msg).bind fun e' => some (msg, e') := by
  by_cases hmode : c.opMode = .apMode
  · refine ⟨c.wscConfStatus, ?_⟩
    unfold buildMessageM1
    dsimp only
    rw [if_pos (show (c.onReg _).opMode = .apMode from hmode)]
    rfl
  · refine ⟨c.regData.selfInfo.scState, ?_⟩
    unfold buildMessageM1
    dsimp only
    rw [if_neg (show ¬ (c.onReg _).opMode = .apMode from hmode)]
    rfl

theorem buildMessageM1_eq (hterm : Terminated c.regData.selfInfo) (hextra : PlainExtra c)
    (hupnp : ¬ (c.bUpnpMsgTimerRunning ∨ (c.wscUseUpnp ∧ c.eapMsgRunning))) (selfNonce : Buf 16) :
    ∃ t scState m, let e := withNonceE c selfNonce scState
      let msg := bodyM1 e t ++ (v2Attrs e ++ extraM1 e)
      m.Holds (encodeAll msg) ∧ (encodeAll msg).length ≤ 1079 ∧
      buildMessageM1 selfNonce c = some (msg, e.onReg fun r => { r with lastTx := m }) := by
  obtain ⟨scState, hgo⟩ := buildMessageM1_go c selfNonce
  set e := withNonceE c selfNonce scState
  obtain ⟨t, hbody⟩ := appendAll_attrsM1 (e := e)
    ⟨hterm.manufacturer, hterm.modelName, hterm.modelNumber, hterm.serialNumber, hterm.deviceName⟩
  have hv2 : Extra (v2Attrs e) := PlainExtra.v2Attrs hextra
  have htlv : Extra (extraM1 e) := PlainExtra.extraM1 hextra
  have hlen : (encodeAll (bodyM1 e t ++ (v2Attrs e ++ extraM1 e))).length ≤ 1079 := by
    have h₀ := length_bodyM1 e t
    have h₁ := hv2.length_le
    have h₂ := htlv.length_le
    simp only [encodeAll_append, length_append]
    omega
  obtain ⟨m, hm, hsave⟩ := exists_saveLastTx e (le_trans hlen (by decide))
  have hnot : ¬ (e.bUpnpMsgTimerRunning = true ∨ e.wscUseUpnp = true ∧ e.eapMsgRunning = true) :=
    hupnp
  refine ⟨t, scState, m, hm, hlen, ?_⟩
  rw [hgo, hbody, bind_some]
  dsimp only
  rw [append_assoc, if_neg hnot, hsave, bind_some]

/-- The registrar with the nonce of M2 and the secret. -/
def withNonceR (c : WscCtrl) (selfNonce : Buf 16) : WscCtrl :=
  c.onReg fun r => { r with
    secretKey := crypt.rtDhSecretKeyGenerate c.regData.pke c.regData.enrolleeRandom
    selfNonce
    registrarNonce := selfNonce }

def WscRegData.keysOfM1 (r : WscRegData) : WscRegData :=
  r.deriveKeys crypt (crypt.rtDhSecretKeyGenerate r.pke r.enrolleeRandom) r.enrolleeNonce
    r.peerInfo.macAddr r.registrarNonce

def attrsM2 (r : WscCtrl) : List (Option Attr) :=
  [appendWscTlv .version [r.regData.selfInfo.version] 0,
    appendWscTlv .msgType [0x05] 0,
    appendWscTlv .enrolleeNonce r.regData.enrolleeNonce.bytes 0,
    appendWscTlv .registrarNonce r.regData.registrarNonce.bytes 0,
    appendWscTlv .uuidR r.regData.selfInfo.uuid.bytes 0,
    appendWscTlv .publicKey r.regData.pkr.bytes 0] ++
  flagAttrs r.regData.selfInfo ++
  [appendWscTlv .configMethods (be16 (sentConfigMethods r)) 0] ++
  deviceAttrs r.regData.selfInfo ++
  [appendWscTlv .configError r.regData.selfInfo.configError.bytes 0,
    appendWscTlv .devicePwdId r.regData.selfInfo.devPwdId.bytes 0,
    appendWscTlv .osVersion r.regData.selfInfo.osVersion.bytes 0]

theorem appendAll_attrsM2 {r : WscCtrl} (h : Terminated r.regData.selfInfo) :
    ∃ t, appendAll (attrsM2 r) = some (bodyM2 r t) := by
  obtain ⟨t, ht⟩ := deviceAttrs_eq h
  refine ⟨t, ?_⟩
  rw [attrsM2, ht, flagAttrs_eq, appendWscTlv_buf r.regData.enrolleeNonce rfl,
    appendWscTlv_buf r.regData.registrarNonce rfl, appendWscTlv_buf r.regData.selfInfo.uuid rfl,
    appendWscTlv_buf r.regData.pkr rfl, appendWscTlv_buf r.regData.selfInfo.configError rfl,
    appendWscTlv_buf r.regData.selfInfo.devPwdId rfl,
    appendWscTlv_buf r.regData.selfInfo.osVersion rfl]
  exact appendAll_map_some (bodyM2 r t)

variable {prev : List Byte}

/-- A message is built from its attributes, authenticated and kept. -/
theorem exists_built (c : WscCtrl) (hlast : c.regData.lastRx.Holds prev)
    (hprev : prev.length ≤ 1200) {attrs : List (Option Attr)} {body : List Attr}
    (hbody : appendAll attrs = some body) {ext : List Attr}
    (hlen : (encodeAll (body ++ ext)).length ≤ 814) :
    ∃ m, m.Holds (encodeAll (authenticated crypt c.regData.authKey prev (body ++ ext))) ∧
      (encodeAll (authenticated crypt c.regData.authKey prev (body ++ ext))).length ≤ 1200 ∧
      ((appendAll attrs).bind fun body =>
        (appendAuthenticator crypt c.regData (body ++ ext)).bind fun msg =>
        (saveLastTx c msg).bind fun c' => some (msg, c')) =
        some (authenticated crypt c.regData.authKey prev (body ++ ext),
          c.onReg fun r => { r with lastTx := m }) := by
  have hsize : prev.length + (encodeAll (body ++ ext)).length ≤ hmacDataSize := by
    rw [hmacDataSize]
    omega
  have hauth := appendAuthenticator_eq crypt hlast hsize
  have hmsg : (encodeAll (authenticated crypt c.regData.authKey prev (body ++ ext))).length ≤
      1200 := by
    rw [length_authenticated]
    omega
  obtain ⟨m, hm, hsave⟩ := exists_saveLastTx c (le_trans hmsg (by decide))
  refine ⟨m, hm, hmsg, ?_⟩
  rw [hbody, bind_some, hauth, bind_some, hsave, bind_some]

theorem buildMessageM2_eq (hrx : c.regData.lastRx.Holds prev)
    (hprev : prev.length ≤ 1200) (hterm : Terminated c.regData.selfInfo) (hextra : PlainExtra c)
    (selfNonce : Buf 16) :
    ∃ t m, let r := withNonceR crypt c selfNonce
      let keys := r.regData.keysOfM1 crypt
      let msg := authenticated crypt keys.authKey prev (bodyM2 r t ++ v2Attrs r)
      m.Holds (encodeAll msg) ∧ (encodeAll msg).length ≤ 1200 ∧
      buildMessageM2 crypt selfNonce c =
        some (msg, r.onReg fun _ => { keys with lastTx := m }) := by
  set r := withNonceR crypt c selfNonce
  set keys := r.regData.keysOfM1 crypt
  obtain ⟨t, hbody⟩ := appendAll_attrsM2 (r := r) hterm
  have hv2 : Extra (v2Attrs r) := PlainExtra.v2Attrs hextra
  have hlen : (encodeAll (bodyM2 r t ++ v2Attrs r)).length ≤ 814 := by
    have h₀ := length_bodyM2 r t
    have h₁ := hv2.length_le
    rw [encodeAll_append, length_append]
    omega
  obtain ⟨m, hm, hmsg, hbuild⟩ :=
    exists_built crypt (r.onReg fun _ => keys) hrx hprev hbody hlen
  exact ⟨t, m, hm, hmsg, hbuild⟩

/-! ## M3 to M8 -/

def keyWrapAuthOf (authKey : Buf 32) (plain : List Attr) : Buf 8 :=
  (crypt.rtHmacSha256 authKey.bytes (encodeAll plain)).first 8 authenticator_le_digest

/-- Settings with their Key-Wrap-Authenticator. -/
def wrapped (authKey : Buf 32) (plain : List Attr) : List Attr :=
  plain ++ [⟨WscId.keyWrapAuth.type, (keyWrapAuthOf crypt authKey plain).bytes⟩]

theorem encrSettings_eq (r : WscRegData) (iv : Buf 16) (plain : List Attr) :
    encrSettings crypt r iv plain =
      some (settingsAttr crypt r.keyWrapKey iv (wrapped crypt r.authKey plain)) := by
  have hauth : readBytes (crypt.rtHmacSha256 r.authKey.bytes (encodeAll plain)).bytes 8 =
      some (keyWrapAuthOf crypt r.authKey plain).bytes := by
    simp [readBytes, keyWrapAuthOf, Buf.first]
  have hwrap : appendWscTlv .keyWrapAuth (crypt.rtHmacSha256 r.authKey.bytes (encodeAll plain)).bytes
      0 = some ⟨WscId.keyWrapAuth.type, (keyWrapAuthOf crypt r.authKey plain).bytes⟩ := by
    simp [appendWscTlv, WscId.len, hauth]
  set data := aesCbcEncrypt (crypt.rtAesEncrypt r.keyWrapKey)
    (encodeAll (wrapped crypt r.authKey plain)) iv with hdata
  have hread : readBytes (iv.bytes ++ data) (16 + data.length) = some (iv.bytes ++ data) := by
    simpa using readBytes_append (iv.bytes ++ data) []
  rw [encrSettings, hwrap]
  simp only [bind, bind_some]
  rw [← wrapped, ← hdata, appendWscTlv, if_pos (by omega), hread]
  rfl

theorem buildMessageEncr_eq (hrx : c.regData.lastRx.Holds prev)
    (hprev : prev.length ≤ 1200) (hextra : PlainExtra c) (msgType : Byte) (nonceId : WscId)
    (hid : nonceId.len = 16) (nonce iv : Buf 16) (plain : List Attr)
    (hplain : (encodeAll plain).length ≤ 160) :
    let msg := authenticated crypt c.regData.authKey prev
      (frontEncr c.regData.selfInfo.version msgType nonceId nonce ++
        [settingsAttr crypt c.regData.keyWrapKey iv (wrapped crypt c.regData.authKey plain)] ++
        v2Attrs c)
    (encodeAll msg).length ≤ 1200 ∧
      buildMessageEncr crypt msgType (appendWscTlv nonceId nonce.bytes 0) iv plain c = some msg := by
  intro msg
  set body := frontEncr c.regData.selfInfo.version msgType nonceId nonce ++
    [settingsAttr crypt c.regData.keyWrapKey iv (wrapped crypt c.regData.authKey plain)] with hbody
  have hlen : (encodeAll (body ++ v2Attrs c)).length ≤ 600 := by
    have hext := (PlainExtra.v2Attrs hextra).length_le
    simp [hbody, frontEncr, wrapped]
    omega
  have happend : appendAll [appendWscTlv .version [c.regData.selfInfo.version] 0,
      appendWscTlv .msgType [msgType] 0, appendWscTlv nonceId nonce.bytes 0,
      encrSettings crypt c.regData iv plain] = some body := by
    rw [appendWscTlv_buf nonce hid, encrSettings_eq]
    exact appendAll_map_some body
  have hsize : prev.length + (encodeAll (body ++ v2Attrs c)).length ≤ hmacDataSize := by
    rw [hmacDataSize]
    omega
  have hauth := appendAuthenticator_eq crypt hrx hsize
  constructor
  · rw [length_authenticated]
    exact le_trans (Nat.add_le_add_right hlen 12) (by decide)
  · rw [buildMessageEncr, happend]
    exact hauth

/-- The two halves of the PIN as keys. -/
def WscRegData.pskHalf1 (r : WscRegData) : Buf 16 := pskOf crypt r.authKey r.pinHalf1

def WscRegData.pskHalf2 (r : WscRegData) : Buf 16 := pskOf crypt r.authKey r.pinHalf2

section

variable (hrx : c.regData.lastRx.Holds prev) (hprev : prev.length ≤ 1200) (hextra : PlainExtra c)

include hrx hprev hextra

theorem buildMessageM3_eq :
    ∃ m, let r := c.regData
      let eHash1 := r.hashOf crypt r.es1 (r.pskHalf1 crypt)
      let eHash2 := r.hashOf crypt r.es2 (r.pskHalf2 crypt)
      let msg := authenticated crypt r.authKey prev
        (bodyM3 r.selfInfo.version r.registrarNonce eHash1 eHash2 ++ v2Attrs c)
      m.Holds (encodeAll msg) ∧ (encodeAll msg).length ≤ 1200 ∧
      buildMessageM3 crypt c = some (msg, c.onReg fun r => { r with
        psk1 := r.pskHalf1 crypt
        psk2 := r.pskHalf2 crypt
        eHash1
        eHash2
        lastTx := m }) := by
  set r := c.regData with hr
  set eHash1 := r.hashOf crypt r.es1 (r.pskHalf1 crypt) with h₁
  set eHash2 := r.hashOf crypt r.es2 (r.pskHalf2 crypt) with h₂
  set body := bodyM3 r.selfInfo.version r.registrarNonce eHash1 eHash2 with hbody
  set c₁ := c.onReg fun r => { r with
    psk1 := r.pskHalf1 crypt
    psk2 := r.pskHalf2 crypt
    eHash1
    eHash2 } with hc₁
  have hlen : (encodeAll (body ++ v2Attrs c)).length ≤ 600 := by
    have hext := (PlainExtra.v2Attrs hextra).length_le
    simp [hbody]
    omega
  have happend : appendAll [appendWscTlv .version [r.selfInfo.version] 0,
      appendWscTlv .msgType [0x07] 0, appendWscTlv .registrarNonce r.registrarNonce.bytes 0,
      appendWscTlv .eHash1 eHash1.bytes 0, appendWscTlv .eHash2 eHash2.bytes 0] = some body := by
    rw [appendWscTlv_buf r.registrarNonce rfl, appendWscTlv_buf eHash1 rfl,
      appendWscTlv_buf eHash2 rfl]
    exact appendAll_map_some body
  obtain ⟨m, hm, hmsg, hbuild⟩ := exists_built crypt c₁ hrx hprev happend (le_trans hlen (by decide))
  exact ⟨m, hm, hmsg, hbuild⟩

theorem buildMessageM4_eq (iv : Buf 16) :
    ∃ m keyWrapAuth, let r := c.regData
      let rHash1 := r.hashOf crypt r.es1 (r.pskHalf1 crypt)
      let rHash2 := r.hashOf crypt r.es2 (r.pskHalf2 crypt)
      let msg := authenticated crypt r.authKey prev
        (frontM4 r.selfInfo.version r.enrolleeNonce rHash1 rHash2 ++
          [settingsAttr crypt r.keyWrapKey iv (nonceSettings .rSnonce1 r.es1 keyWrapAuth)] ++
          v2Attrs c)
      m.Holds (encodeAll msg) ∧ (encodeAll msg).length ≤ 1200 ∧
      buildMessageM4 crypt iv c = some (msg, c.onReg fun r => { r with
        psk1 := r.pskHalf1 crypt
        psk2 := r.pskHalf2 crypt
        rHash1
        rHash2
        lastTx := m }) := by
  set r := c.regData with hr
  set rHash1 := r.hashOf crypt r.es1 (r.pskHalf1 crypt) with h₁
  set rHash2 := r.hashOf crypt r.es2 (r.pskHalf2 crypt) with h₂
  set plain : List Attr := [⟨WscId.rSnonce1.type, r.es1.bytes⟩] with hplain
  set keyWrapAuth := keyWrapAuthOf crypt r.authKey plain with hkwa
  set body := frontM4 r.selfInfo.version r.enrolleeNonce rHash1 rHash2 ++
    [settingsAttr crypt r.keyWrapKey iv (nonceSettings .rSnonce1 r.es1 keyWrapAuth)] with hbody
  set c₁ := c.onReg fun r => { r with
    psk1 := r.pskHalf1 crypt
    psk2 := r.pskHalf2 crypt
    rHash1
    rHash2 } with hc₁
  have hlen : (encodeAll (body ++ v2Attrs c)).length ≤ 600 := by
    have hext := (PlainExtra.v2Attrs hextra).length_le
    simp [hbody, frontM4]
    omega
  have hsettings : encrSettings crypt c₁.regData iv plain =
      some (settingsAttr crypt r.keyWrapKey iv (nonceSettings .rSnonce1 r.es1 keyWrapAuth)) :=
    encrSettings_eq crypt c₁.regData iv plain
  have hnonce : appendAll [appendWscTlv .rSnonce1 r.es1.bytes 0] = some plain := by
    rw [appendWscTlv_buf r.es1 rfl]
    exact appendAll_map_some plain
  have happend : appendAll [appendWscTlv .version [r.selfInfo.version] 0,
      appendWscTlv .msgType [0x08] 0, appendWscTlv .enrolleeNonce r.enrolleeNonce.bytes 0,
      appendWscTlv .rHash1 rHash1.bytes 0, appendWscTlv .rHash2 rHash2.bytes 0,
      encrSettings crypt c₁.regData iv plain] = some body := by
    rw [appendWscTlv_buf r.enrolleeNonce rfl, appendWscTlv_buf rHash1 rfl,
      appendWscTlv_buf rHash2 rfl, hsettings]
    exact appendAll_map_some body
  obtain ⟨m, hm, hmsg, hbuild⟩ := exists_built crypt c₁ hrx hprev happend (le_trans hlen (by decide))
  refine ⟨m, keyWrapAuth, hm, hmsg, ?_⟩
  show (appendAll [appendWscTlv .rSnonce1 r.es1.bytes 0]).bind _ = _
  rw [hnonce]
  exact hbuild

theorem exists_buildMessageEncr (msgType : Byte) (nonceId : WscId) (hid : nonceId.len = 16)
    (nonce iv : Buf 16) (plain : List Attr) (hplain : (encodeAll plain).length ≤ 160) :
    ∃ m,
      let msg := authenticated crypt c.regData.authKey prev
        (frontEncr c.regData.selfInfo.version msgType nonceId nonce ++
          [settingsAttr crypt c.regData.keyWrapKey iv (wrapped crypt c.regData.authKey plain)] ++
          v2Attrs c)
      m.Holds (encodeAll msg) ∧ (encodeAll msg).length ≤ 1200 ∧
      ((buildMessageEncr crypt msgType (appendWscTlv nonceId nonce.bytes 0) iv plain c).bind
        fun msg => (saveLastTx c msg).bind fun c' => some (msg, c')) =
        some (msg, c.onReg fun r => { r with lastTx := m }) := by
  obtain ⟨hmsg, hbuild⟩ := buildMessageEncr_eq crypt hrx hprev hextra msgType nonceId hid nonce iv
    plain hplain
  obtain ⟨m, hm, hsave⟩ := exists_saveLastTx c (le_trans hmsg (by decide))
  refine ⟨m, hm, hmsg, ?_⟩
  rw [hbuild, bind_some, hsave, bind_some]

theorem exists_buildMessageNonce (msgType : Byte) (nonceId : WscId) (hid : nonceId.len = 16)
    (nonce iv : Buf 16) (id : WscId) (hlen : id.len = 16) (snonce : Buf 16) :
    ∃ m keyWrapAuth,
      let msg := authenticated crypt c.regData.authKey prev
        (frontEncr c.regData.selfInfo.version msgType nonceId nonce ++
          [settingsAttr crypt c.regData.keyWrapKey iv (nonceSettings id snonce keyWrapAuth)] ++
          v2Attrs c)
      m.Holds (encodeAll msg) ∧ (encodeAll msg).length ≤ 1200 ∧
      ((appendAll [appendWscTlv id snonce.bytes 0]).bind fun plain =>
        (buildMessageEncr crypt msgType (appendWscTlv nonceId nonce.bytes 0) iv plain c).bind
        fun msg => (saveLastTx c msg).bind fun c' => some (msg, c')) =
        some (msg, c.onReg fun r => { r with lastTx := m }) := by
  set plain : List Attr := [⟨id.type, snonce.bytes⟩]
  have hnonce : appendAll [appendWscTlv id snonce.bytes 0] = some plain := by
    rw [appendWscTlv_buf snonce hlen]
    exact appendAll_map_some plain
  obtain ⟨m, hm, hmsg, hbuild⟩ := exists_buildMessageEncr crypt hrx hprev hextra msgType nonceId
    hid nonce iv plain (by simp [plain])
  refine ⟨m, keyWrapAuthOf crypt c.regData.authKey plain, hm, hmsg, ?_⟩
  rw [hnonce]
  exact hbuild

theorem buildMessageM5_eq (iv : Buf 16) :
    ∃ m keyWrapAuth, let r := c.regData
      let msg := authenticated crypt r.authKey prev
        (frontEncr r.selfInfo.version 0x09 .registrarNonce r.registrarNonce ++
          [settingsAttr crypt r.keyWrapKey iv (nonceSettings .eSnonce1 r.es1 keyWrapAuth)] ++
          v2Attrs c)
      m.Holds (encodeAll msg) ∧ (encodeAll msg).length ≤ 1200 ∧
      buildMessageM5 crypt iv c = some (msg, c.onReg fun r => { r with lastTx := m }) :=
  exists_buildMessageNonce crypt hrx hprev hextra 0x09 .registrarNonce rfl c.regData.registrarNonce
    iv .eSnonce1 rfl c.regData.es1

theorem buildMessageM6_eq (iv : Buf 16) :
    ∃ m keyWrapAuth, let r := c.regData
      let msg := authenticated crypt r.authKey prev
        (frontEncr r.selfInfo.version 0x0A .enrolleeNonce r.enrolleeNonce ++
          [settingsAttr crypt r.keyWrapKey iv (nonceSettings .rSnonce2 r.es2 keyWrapAuth)] ++
          v2Attrs c)
      m.Holds (encodeAll msg) ∧ (encodeAll msg).length ≤ 1200 ∧
      buildMessageM6 crypt iv c = some (msg, c.onReg fun r => { r with lastTx := m }) :=
  exists_buildMessageNonce crypt hrx hprev hextra 0x0A .enrolleeNonce rfl c.regData.enrolleeNonce
    iv .rSnonce2 rfl c.regData.es2

end

/-- The lengths of a credential stay inside its fields. -/
def WscCredential.Fits (cred : WscCredential) : Prop := cred.ssidLength ≤ 32 ∧ cred.keyLength ≤ 64

/-- The SSID as it is sent; an empty one is sent as the whole field. -/
def WscCredential.sentSsid (cred : WscCredential) : List Byte :=
  cred.ssid.bytes.take (if cred.ssidLength ≠ 0 then cred.ssidLength else 32)

def WscCredential.sentKey (cred : WscCredential) : List Byte := cred.key.bytes.take cred.keyLength

variable {cred : WscCredential}

theorem appendWscTlv_ssid (h : cred.Fits) :
    appendWscTlv .ssid cred.ssid.bytes cred.ssidLength = some ⟨WscId.ssid.type, cred.sentSsid⟩ := by
  have hlen : (if cred.ssidLength ≠ 0 then cred.ssidLength else WscId.ssid.len) ≤
      cred.ssid.bytes.length := by
    rw [cred.ssid.size]
    split_ifs
    · exact h.1
    · exact le_refl 32
  rw [appendWscTlv, readBytes, if_pos hlen]
  rfl

theorem appendWscTlv_nwKey (h : cred.Fits) :
    appendWscTlv .nwKey cred.key.bytes cred.keyLength = some ⟨WscId.nwKey.type, cred.sentKey⟩ := by
  have hsame : (if cred.keyLength ≠ 0 then cred.keyLength else WscId.nwKey.len) =
      cred.keyLength := by
    split_ifs with hzero
    · rfl
    · exact (not_not.mp hzero).symm
  rw [appendWscTlv, hsame, readBytes, if_pos (by rw [cred.key.size]; exact h.2)]
  rfl

theorem length_sentSsid (cred : WscCredential) : cred.sentSsid.length ≤ 32 := by
  rw [WscCredential.sentSsid, length_take, cred.ssid.size]
  exact Nat.min_le_right _ _

theorem length_sentKey (cred : WscCredential) : cred.sentKey.length ≤ 64 := by
  rw [WscCredential.sentKey, length_take, cred.key.size]
  exact Nat.min_le_right _ _

/-- The settings of an access point in M7. -/
def settingsList (version2 : Byte) (cred : WscCredential) : List Attr :=
  [⟨WscId.ssid.type, cred.sentSsid⟩,
    ⟨WscId.macAddr.type, cred.macAddr.bytes⟩,
    ⟨WscId.authType.type, be16 (offeredAuthType version2 cred)⟩,
    ⟨WscId.encrType.type, be16 (offeredEncrType version2 cred)⟩,
    ⟨WscId.nwKeyIndex.type, [cred.keyIndex]⟩,
    ⟨WscId.nwKey.type, cred.sentKey⟩]

theorem settingsAttrs_eq (version2 : Byte) (h : cred.Fits) :
    settingsAttrs version2 cred = (settingsList version2 cred).map some := by
  rw [settingsAttrs, appendWscTlv_ssid h, appendWscTlv_nwKey h, appendWscTlv_buf cred.macAddr rfl]
  rfl

theorem isSetting_settingsList (version2 : Byte) (cred : WscCredential) :
    ∀ a ∈ settingsList version2 cred, IsSetting a := by
  simp only [settingsList, forall_mem_cons, not_mem_nil, false_imp_iff, implies_true, and_true]
  exact ⟨.ssid (length_sentSsid cred), .macAddr _, .authType _, .encrType _, .nwKeyIndex _,
    .nwKey (length_sentKey cred)⟩

theorem length_settingsList (version2 : Byte) (cred : WscCredential) :
    (encodeAll (settingsList version2 cred)).length ≤ 131 := by
  have h₁ := length_sentSsid cred
  have h₂ := length_sentKey cred
  simp [settingsList, be16]
  omega

theorem buildMessageM7_eq (hrx : c.regData.lastRx.Holds prev)
    (hprev : prev.length ≤ 1200) (hextra : PlainExtra c) (iv : Buf 16) {cfg : WscProfile}
    (hcfg : cfg.first.Fits) :
    ∃ m keyWrapAuth settings profile, (∀ a ∈ settings, IsSetting a) ∧
      (encodeAll settings).length ≤ 140 ∧
      let r := c.regData
      let msg := authenticated crypt r.authKey prev
        (frontEncr r.selfInfo.version 0x0B .registrarNonce r.registrarNonce ++
          [settingsAttr crypt r.keyWrapKey iv (settingsM7 r.es2 settings keyWrapAuth)] ++ v2Attrs c)
      m.Holds (encodeAll msg) ∧ (encodeAll msg).length ≤ 1200 ∧
      buildMessageM7 crypt iv cfg c =
        some (msg, (c.setProfile profile).onReg fun r => { r with lastTx := m }) := by
  obtain ⟨settings, profile, hsettings, hlen, hgo⟩ : ∃ settings profile,
      (∀ a ∈ settings, IsSetting a) ∧ (encodeAll settings).length ≤ 131 ∧
      buildMessageM7 crypt iv cfg c =
        (appendAll (appendWscTlv .eSnonce2 c.regData.es2.bytes 0 :: settings.map some)).bind
        fun plain => (buildMessageEncr crypt 0x0B
          (appendWscTlv .registrarNonce c.regData.registrarNonce.bytes 0) iv plain
          (c.setProfile profile)).bind
        fun msg => (saveLastTx (c.setProfile profile) msg).bind fun c' => some (msg, c') := by
    by_cases hap : isAp c = true
    · refine ⟨settingsList c.regData.peerInfo.version2 cfg.first, cfg,
        isSetting_settingsList _ _, length_settingsList _ _, ?_⟩
      unfold buildMessageM7
      dsimp only
      rw [if_pos hap, if_pos (show isAp (c.setProfile cfg) = true from hap), ← settingsAttrs_eq _ hcfg]
      rfl
    · refine ⟨[], c.wscProfile, fun a ha => absurd ha not_mem_nil, by decide, ?_⟩
      unfold buildMessageM7
      dsimp only
      rw [if_neg hap, if_neg hap]
      rfl
  set plain : List Attr := ⟨WscId.eSnonce2.type, c.regData.es2.bytes⟩ :: settings with hplain
  have hnonce : appendAll (appendWscTlv .eSnonce2 c.regData.es2.bytes 0 :: settings.map some) =
      some plain := by
    rw [appendWscTlv_buf c.regData.es2 rfl]
    exact appendAll_map_some plain
  have hsize : (encodeAll plain).length ≤ 160 := by
    simp [hplain]
    omega
  have hlast : (c.setProfile profile).regData.lastRx.Holds prev := hrx
  obtain ⟨m, hm, hmsg, hbuild⟩ := exists_buildMessageEncr crypt hlast hprev
    (show PlainExtra (c.setProfile profile) from hextra) 0x0B .registrarNonce rfl
    c.regData.registrarNonce iv plain hsize
  refine ⟨m, keyWrapAuthOf crypt c.regData.authKey plain, settings, profile, hsettings,
    le_trans hlen (by decide), hm, hmsg, ?_⟩
  rw [hgo, hnonce]
  exact hbuild

/-- The credential in M8, with the characters and the encryption that the enrollee takes. -/
structure WscCredential.Plain (cred : WscCredential) : Prop where
  fits : cred.Fits
  ssid : Printable (cred.sentSsid.takeWhile (· ≠ 0))
  key : Printable cred.sentKey
  noWep : cred.encrType ≠ 0x0002

theorem offeredEncrType_ne (version2 : Byte) (h : cred.encrType ≠ 0x0002) :
    offeredEncrType version2 cred ≠ 0x0002 := by
  unfold offeredEncrType
  split_ifs
  · decide
  · exact h

theorem credentialAttrs_eq (version2 : Byte) (h : cred.Fits) :
    credentialAttrs version2 cred = (credentialList cred.sentSsid (offeredAuthType version2 cred)
      (offeredEncrType version2 cred) cred.keyIndex cred.sentKey cred.macAddr).map some := by
  rw [credentialAttrs, appendWscTlv_ssid h, appendWscTlv_nwKey h, appendWscTlv_buf cred.macAddr rfl]
  rfl

theorem length_credentialList (version2 : Byte) (cred : WscCredential) :
    (encodeAll (credentialList cred.sentSsid (offeredAuthType version2 cred)
      (offeredEncrType version2 cred) cred.keyIndex cred.sentKey cred.macAddr)).length ≤ 136 := by
  have h₁ := length_sentSsid cred
  have h₂ := length_sentKey cred
  simp [credentialList, be16]
  omega

theorem appendWscTlv_credential {list : List Attr} (hpos : (encodeAll list).length ≠ 0) :
    appendWscTlv .credential (encodeAll list) (encodeAll list).length =
      some ⟨WscId.credential.type, encodeAll list⟩ := by
  have hread : readBytes (encodeAll list) (encodeAll list).length = some (encodeAll list) := by
    simpa using readBytes_append (encodeAll list) []
  rw [appendWscTlv, if_pos hpos, hread]
  rfl

theorem buildMessageM8_eq (hrx : c.regData.lastRx.Holds prev)
    (hprev : prev.length ≤ 1200) (hextra : PlainExtra c) (iv : Buf 16) (cfg : WscProfile)
    (bssid : Buf 6) (hcred : (profileM8 cfg bssid c).first.Fits) :
    ∃ keyWrapAuth inner,
      let r := c.regData
      let cred := (profileM8 cfg bssid c).first
      let msg := authenticated crypt r.authKey prev
        (frontEncr r.selfInfo.version 0x0C .enrolleeNonce r.enrolleeNonce ++
          [settingsAttr crypt r.keyWrapKey iv (settingsM8 inner (credentialList cred.sentSsid
            (offeredAuthType r.peerInfo.version2 cred) (offeredEncrType r.peerInfo.version2 cred)
            cred.keyIndex cred.sentKey cred.macAddr) keyWrapAuth)] ++ v2Attrs c)
      buildMessageM8 crypt iv cfg bssid c = some (msg, c.setProfile (profileM8 cfg bssid c)) := by
  set r := c.regData
  set cred := (profileM8 cfg bssid c).first
  set c₁ := c.setProfile (profileM8 cfg bssid c)
  set list := credentialList cred.sentSsid (offeredAuthType r.peerInfo.version2 cred)
    (offeredEncrType r.peerInfo.version2 cred) cred.keyIndex cred.sentKey cred.macAddr with hlist
  have hlen : (encodeAll list).length ≤ 136 := length_credentialList r.peerInfo.version2 cred
  have hattrs : appendAll (credentialAttrs r.peerInfo.version2 cred) = some list := by
    rw [credentialAttrs_eq _ hcred]
    exact appendAll_map_some list
  have hcredential := appendWscTlv_credential
    (show (encodeAll list).length ≠ 0 by simp [hlist, credentialList])
  have hlast : c₁.regData.lastRx.Holds prev := hrx
  have hextra₁ : PlainExtra c₁ := hextra
  have hgo : buildMessageM8 crypt iv cfg bssid c =
      (appendAll (credentialAttrs r.peerInfo.version2 cred)).bind fun list =>
      if c₁.opMode = .apMode ∨ c₁.bAdhoc then
        (appendAll [appendWscTlv .credential (encodeAll list) (encodeAll list).length]).bind
        fun plain => (buildMessageEncr crypt 0x0C
          (appendWscTlv .enrolleeNonce r.enrolleeNonce.bytes 0) iv plain c₁).bind
        fun msg => some (msg, c₁)
      else (some list).bind fun plain => (buildMessageEncr crypt 0x0C
          (appendWscTlv .enrolleeNonce r.enrolleeNonce.bytes 0) iv plain c₁).bind
        fun msg => some (msg, c₁) := rfl
  by_cases hmode : c₁.opMode = .apMode ∨ c₁.bAdhoc
  · set plain : List Attr := [⟨WscId.credential.type, encodeAll list⟩] with hplain
    obtain ⟨-, hbuild⟩ := buildMessageEncr_eq crypt hlast hprev hextra₁ 0x0C .enrolleeNonce rfl
      r.enrolleeNonce iv plain (by simp [hplain]; omega)
    refine ⟨keyWrapAuthOf crypt r.authKey plain, true, ?_⟩
    rw [hgo, hattrs, bind_some, if_pos hmode, hcredential,
      show appendAll [some (⟨WscId.credential.type, encodeAll list⟩ : Attr)] = some plain from rfl,
      bind_some, hbuild]
    rfl
  · obtain ⟨-, hbuild⟩ := buildMessageEncr_eq crypt hlast hprev hextra₁ 0x0C .enrolleeNonce rfl
      r.enrolleeNonce iv list (le_trans hlen (by decide))
    refine ⟨keyWrapAuthOf crypt r.authKey list, false, ?_⟩
    rw [hgo, hattrs, bind_some, if_neg hmode, bind_some, hbuild]
    rfl

end RalinkSdk.Wps
