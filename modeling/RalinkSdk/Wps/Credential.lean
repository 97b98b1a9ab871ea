import RalinkSdk.Wps.Agreement

/-!
# The credential that M8 carries

`BuildMessageM8` writes a credential as attributes, for a station in an attribute of their own, and
adds the Key-Wrap-Authenticator; `WscProcessCredential` walks over them.  What it keeps is the
credential: the fields with their lengths, and the types that have been chosen for the peer.

It refuses a credential with WEP in version 2 and, if it is told to check them, an SSID that is not
printable.
-/

namespace RalinkSdk.Wps

open Lib Crypt List Option

variable (crypt : CryptFns)

/-! ## The settings before they are encrypted -/

def attrsM8 (cfg : WscProfile) (bssid : Buf 6) (c : WscCtrl) : Option (List Attr) := do
  let c := c.setProfile (profileM8 cfg bssid c)
  let cred ← appendAll (credentialAttrs c.regData.peerInfo.version2 c.wscProfile.first)
  if c.opMode = .apMode ∨ c.bAdhoc then
    appendAll [appendWscTlv .credential (encodeAll cred) (encodeAll cred).length]
  else some cred

/-- The settings in M8 with their Key-Wrap-Authenticator. -/
def plainM8 (cfg : WscProfile) (bssid : Buf 6) (c : WscCtrl) : Option (List Attr) :=
  (attrsM8 cfg bssid c).map (wrapped crypt c.regData.authKey)

theorem buildMessageM8_attrs (iv : Buf 16) (cfg : WscProfile) (bssid : Buf 6) (c : WscCtrl) :
    buildMessageM8 crypt iv cfg bssid c = (attrsM8 cfg bssid c).bind fun plain =>
      (buildMessageEncr crypt 0x0C
        (appendWscTlv .enrolleeNonce c.regData.enrolleeNonce.bytes 0) iv plain
          (c.setProfile (profileM8 cfg bssid c))).bind fun msg =>
        some (msg, c.setProfile (profileM8 cfg bssid c)) := by
  simp only [buildMessageM8, attrsM8, bind, bind_assoc]
  congr 1
  funext cred
  split
  · rfl
  · rfl

theorem of_appendAll_eq_some {as : List (Option Attr)} {bs : List Attr}
    (h : appendAll as = some bs) : as = bs.map some := by
  induction as generalizing bs with
  | nil =>
    cases h
    rfl
  | cons a as ih =>
    cases a with
    | none => simp [appendAll] at h
    | some b =>
      rw [appendAll_cons_some] at h
      obtain ⟨bs', hbs', rfl⟩ := map_eq_some_iff.mp h
      rw [ih hbs']
      rfl

/-- **M8 carries these settings**, encrypted under the Key-Wrap-Key. -/
theorem buildMessageM8_carries {iv : Buf 16} {cfg : WscProfile} {bssid : Buf 6} {c c' : WscCtrl}
    {msg : List Attr} (h : buildMessageM8 crypt iv cfg bssid c = some (msg, c')) :
    ∃ plain, plainM8 crypt cfg bssid c = some plain ∧
      settingsAttr crypt c.regData.keyWrapKey iv plain ∈ msg := by
  rw [buildMessageM8_attrs] at h
  obtain ⟨attrs, hattrs, h⟩ := bind_eq_some_iff.mp h
  obtain ⟨msg', hbuild, h⟩ := bind_eq_some_iff.mp h
  cases h
  obtain ⟨head, hhead, hauth⟩ := bind_eq_some_iff.mp hbuild
  have hall := of_appendAll_eq_some hhead
  -- the settings are the last of the four attributes in front
  have hmem : encrSettings crypt c.regData iv attrs ∈ head.map some := by
    rw [← hall]
    exact mem_of_getLast? rfl
  rw [encrSettings_eq] at hmem
  obtain ⟨a, ha, hsettings⟩ := mem_map.mp hmem
  cases hsettings
  refine ⟨wrapped crypt c.regData.authKey attrs, by rw [plainM8, hattrs]; rfl, ?_⟩
  unfold appendAuthenticator at hauth
  split at hauth
  · obtain ⟨auth, -, hauth⟩ := bind_eq_some_iff.mp hauth
    cases hauth
    exact mem_append_left _ (mem_append_left _ ha)
  · cases hauth

theorem plainM8_eq {cfg : WscProfile} {bssid : Buf 6} {c : WscCtrl}
    (hfits : (profileM8 cfg bssid c).first.Fits) :
    let cred := (profileM8 cfg bssid c).first
    let version2 := c.regData.peerInfo.version2
    ∃ inner keyWrapAuth, plainM8 crypt cfg bssid c =
      some (settingsM8 inner (credentialList cred.sentSsid (offeredAuthType version2 cred)
        (offeredEncrType version2 cred) cred.keyIndex cred.sentKey cred.macAddr) keyWrapAuth) := by
  intro cred version2
  set list := credentialList cred.sentSsid (offeredAuthType version2 cred)
    (offeredEncrType version2 cred) cred.keyIndex cred.sentKey cred.macAddr with hlist
  have hattrs : appendAll (credentialAttrs version2 cred) = some list := by
    rw [credentialAttrs_eq version2 hfits]
    exact appendAll_map_some list
  have hgo : attrsM8 cfg bssid c = (appendAll (credentialAttrs version2 cred)).bind fun list =>
      if c.opMode = .apMode ∨ c.bAdhoc then
        appendAll [appendWscTlv .credential (encodeAll list) (encodeAll list).length]
      else some list := rfl
  rw [plainM8, hgo, hattrs, bind_some]
  by_cases hmode : c.opMode = .apMode ∨ c.bAdhoc = true
  · have hcredential := appendWscTlv_credential
      (show (encodeAll list).length ≠ 0 by simp [hlist, credentialList])
    refine ⟨true, keyWrapAuthOf crypt c.regData.authKey
      [⟨WscId.credential.type, encodeAll list⟩], ?_⟩
    rw [if_pos hmode, hcredential]
    rfl
  · refine ⟨false, keyWrapAuthOf crypt c.regData.authKey list, ?_⟩
    rw [if_neg hmode]
    rfl

/-! ## The way back -/

/-- A stored credential: an SSID without NUL and a printable key, which may be empty. -/
structure WscCredential.Stored (cred : WscCredential) : Prop where
  ssidLength : 1 ≤ cred.ssidLength ∧ cred.ssidLength ≤ 32
  ssid : ∀ x ∈ cred.ssid.bytes.take cred.ssidLength, x ≠ 0
  keyLength : cred.keyLength ≤ 64
  key : Printable (cred.key.bytes.take cred.keyLength)

theorem WscCredential.Stored.sentSsid {cred : WscCredential} (h : cred.Stored) :
    cred.sentSsid = cred.ssid.bytes.take cred.ssidLength := by
  rw [WscCredential.sentSsid, if_pos (by have := h.ssidLength; omega)]

theorem WscCredential.Stored.takeWhile_sentSsid {cred : WscCredential} (h : cred.Stored) :
    cred.sentSsid.takeWhile (· ≠ 0) = cred.ssid.bytes.take cred.ssidLength := by
  rw [h.sentSsid, takeWhile_eq_self_iff]
  intro x hx
  exact decide_eq_true (h.ssid x hx)

theorem parseCredential_ssid_stop {v : List Byte} (hlen : v.length ≤ 32)
    (hprint : ¬ Printable (v.takeWhile (· ≠ 0))) (rest : List Byte) (p : WscProfile) :
    ∃ s, parseCredential true .ssid v.length (v ++ rest) ⟨p, 1, 0⟩ = some (.stop s) := by
  have hsplit : v ++ rest = v.takeWhile (· ≠ 0) ++ (v.dropWhile (· ≠ 0) ++ rest) := by
    rw [← append_assoc, takeWhile_append_dropWhile]
  have hshort : (v.takeWhile (· ≠ 0)).length ≤ 32 :=
    le_trans (takeWhile_sublist _).length_le hlen
  have hcheck : rtmpCheckStrPrintAble (v ++ rest) (v.takeWhile (· ≠ 0)).length = false := by
    rw [Bool.eq_false_iff, hsplit]
    intro hall
    exact hprint ((rtmpCheckStrPrintAble_iff (by omega) _).mp hall)
  refine ⟨⟨p.setFirst { p.first with ssidLength := (v.takeWhile (· ≠ 0)).length }, 1, 0⟩, ?_⟩
  simp only [parseCredential, ssidLen_append, bind, bind_some, onCurrent_first,
    map_some, hcheck, Bool.not_true, Bool.or_self, Bool.false_eq_true, if_false]

/-- **The SSID is refused**: the walk over the settings ends at it. -/
theorem walk_settingsM8_stop {v w : List Byte} (hv : v.length ≤ 32)
    (hprint : ¬ Printable (v.takeWhile (· ≠ 0))) (hw : w.length ≤ 64)
    (authType encrType : BitVec 16) (keyIndex : Byte) (mac : Buf 6) (inner : Bool)
    (keyWrapAuth : Buf 8) (rest : List Byte) :
    let settings := settingsM8 inner (credentialList v authType encrType keyIndex w mac)
      keyWrapAuth
    ∃ s, walk (dispatchStop (parseCredential true)) (encodeAll settings).length
      (encodeAll settings ++ rest) ⟨zeroProfile, 0, 0⟩ = some (.inr s) := by
  intro settings
  let list := credentialList v authType encrType keyIndex w mac
  let tail : List Attr := [⟨WscId.keyWrapAuth.type, keyWrapAuth.bytes⟩]
  have h₀ : ∀ q, parseCredential true .nwIndex [(0x31 : Byte)].length q ⟨zeroProfile, 0, 0⟩ =
      some (.next [(0x31 : Byte)].length ⟨zeroProfile, 1, 0⟩) := fun _ => rfl
  obtain ⟨s, hs⟩ := parseCredential_ssid_stop hv hprint
    (encodeAll (list.drop 2 ++ tail) ++ rest) zeroProfile
  have hlist : walk (dispatchStop (parseCredential true)) (encodeAll (list ++ tail)).length
      (encodeAll (list ++ tail) ++ rest) ⟨zeroProfile, 0, 0⟩ = some (.inr s) := by
    have hfit : Attr.Fits ⟨WscId.ssid.type, v⟩ := lt_of_le_of_lt hv (by decide)
    have hcons : list ++ tail = ⟨WscId.nwIndex.type, [0x31]⟩ :: ⟨WscId.ssid.type, v⟩ ::
        (list.drop 2 ++ tail) := rfl
    rw [hcons, walk_attr (by simp) (by simp) (h₀ _), encodeAll_cons, length_append,
      Attr.length_encode, append_assoc, walk_cons hfit (by simp [list, credentialList]),
      dispatchStop_type, hs]
    rfl
  refine ⟨s, ?_⟩
  rw [walk_settingsM8_eq hv hw, ← hlist]
  rfl

theorem wscProcessCredential_refuses {c : WscCtrl} (hcheck : c.bCheckMultiByte = true)
    {v w : List Byte} (hv : v.length ≤ 32) (hprint : ¬ Printable (v.takeWhile (· ≠ 0)))
    (hw : w.length ≤ 64) (authType encrType : BitVec 16) (keyIndex : Byte) (mac : Buf 6)
    (inner : Bool) (keyWrapAuth : Buf 8) {rest : List Byte} :
    let settings := settingsM8 inner (credentialList v authType encrType keyIndex w mac)
      keyWrapAuth
    c.regData.apEncrSettings.bytes = encodeAll settings ++ rest →
    ∃ c', wscProcessCredential (encodeAll settings).length c = some (false, c') := by
  intro settings hap
  obtain ⟨s, hwalk⟩ := walk_settingsM8_stop hv hprint hw authType encrType keyIndex mac inner
    keyWrapAuth rest
  refine ⟨c.setProfile s.profile, ?_⟩
  rw [wscProcessCredential, hap, hcheck, hwalk]
  rfl

/-- **The round trip of a credential**: from the settings in M8 `WscProcessCredential` takes the
    stored credential, with the types that have been chosen, unless it checks the SSID and this is
    not printable, or the device has version 2 and the type is WEP. -/
theorem credential_roundTrip (cfg : WscProfile) (bssid : Buf 6) (r : WscCtrl)
    (hstored : (profileM8 cfg bssid r).first.Stored) :
    let cred := (profileM8 cfg bssid r).first
    let ssid := cred.ssid.bytes.take cred.ssidLength
    let version2 := r.regData.peerInfo.version2
    let encrType := offeredEncrType version2 cred
    ∃ plain, plainM8 crypt cfg bssid r = some plain ∧
      ∀ (e : WscCtrl) (rest : List Byte), e.regData.apEncrSettings.bytes = encodeAll plain ++ rest →
        if (e.bCheckMultiByte = true ∧ ¬ Printable ssid) ∨
            (e.bEnableWpsV2 = true ∧ encrType = 0x0002) then
          ∃ e', wscProcessCredential (encodeAll plain).length e = some (false, e')
        else ∃ p, wscProcessCredential (encodeAll plain).length e = some (true, e.setProfile p) ∧
          p.profileCnt = 1 ∧ p.first.Holds ssid (offeredAuthType version2 cred) encrType
            cred.keyIndex (cred.key.bytes.take cred.keyLength) cred.macAddr := by
  intro cred ssid version2 encrType
  have hfits : cred.Fits := ⟨hstored.ssidLength.2, hstored.keyLength⟩
  obtain ⟨inner, keyWrapAuth, hplain⟩ := plainM8_eq crypt hfits
  refine ⟨_, hplain, ?_⟩
  intro e rest hap
  have hssid : cred.sentSsid.takeWhile (· ≠ 0) = ssid := hstored.takeWhile_sentSsid
  by_cases hprint : e.bCheckMultiByte = true ∧ ¬ Printable ssid
  · rw [if_pos (Or.inl hprint)]
    apply wscProcessCredential_refuses hprint.1 (length_sentSsid cred) _ (length_sentKey cred)
      (offeredAuthType version2 cred) encrType cred.keyIndex cred.macAddr inner keyWrapAuth hap
    rw [hssid]
    exact hprint.2
  · have hchecked : e.bCheckMultiByte = true → Printable (cred.sentSsid.takeWhile (· ≠ 0)) := by
      intro hcheck
      rw [hssid]
      exact by_contra fun hnot => hprint ⟨hcheck, hnot⟩
    obtain ⟨got, hgot, hprocess⟩ := wscProcessCredential_eq (length_sentSsid cred) hchecked
      (length_sentKey cred) (fun _ => hstored.key) (offeredAuthType version2 cred) encrType
      cred.keyIndex cred.macAddr inner keyWrapAuth hap
    rw [hssid] at hgot
    by_cases hwep : e.bEnableWpsV2 = true ∧ encrType = 0x0002
    · rw [if_pos (Or.inr hwep)]
      rw [if_pos hwep] at hprocess
      exact ⟨_, hprocess⟩
    · rw [if_neg (not_or.mpr ⟨hprint, hwep⟩)]
      rw [if_neg hwep] at hprocess
      refine ⟨_, hprocess, rfl, ?_⟩
      show ((zeroProfile.setFirst got).first).Holds _ _ _ _ _ _
      rw [WscProfile.first_setFirst]
      exact hgot

/-! ### Credentials -/

/-- A credential with the SSID "ap" without a key. -/
def openCredential : WscCredential :=
  { apCredential with authType := 0x0001, encrType := 0x0001, keyLength := 0 }

theorem openCredential_stored : openCredential.Stored where
  ssidLength := by decide
  ssid := by decide
  keyLength := by decide
  key := by decide

theorem length_plainM8_open : ∀ plain ∈ plainM8 xorCrypt ⟨1, fun _ => openCredential⟩
    (Buf.fill 6 0) apRegistrar, (encodeAll plain).length ≤ 1024 := by
  decide +kernel

theorem credential_roundTrip_open :
    ∃ plain ap p, plainM8 xorCrypt ⟨1, fun _ => openCredential⟩ (Buf.fill 6 0) apRegistrar =
        some plain ∧
      wscProcessCredential (encodeAll plain).length
          (staEnrollee.onReg fun r => { r with apEncrSettings := ap }) =
        some (true, (staEnrollee.onReg fun r => { r with apEncrSettings := ap }).setProfile p) ∧
      p.profileCnt = 1 ∧ p.first.keyLength = 0 := by
  obtain ⟨plain, hplain, hback⟩ := credential_roundTrip xorCrypt ⟨1, fun _ => openCredential⟩
    (Buf.fill 6 0) apRegistrar openCredential_stored
  obtain ⟨ap, hap⟩ := (Buf.fill 1024 0).store_of_le (length_plainM8_open plain hplain)
  have hresult := hback (staEnrollee.onReg fun r => { r with apEncrSettings := ap }) _
    (Buf.bytes_of_store hap)
  have hok : ¬ ((true = true ∧ ¬ Printable [0x61, 0x70]) ∨
      (true = true ∧ offeredEncrType 0x20 openCredential = 0x0002)) := by decide
  split at hresult
  next hbad => exact absurd hbad hok
  next =>
    obtain ⟨p, hprocess, hcnt, hgot⟩ := hresult
    exact ⟨plain, ap, p, hplain, hprocess, hcnt, hgot.keyLength⟩

/-- A credential with an SSID of one byte that is not printable. -/
def latinCredential : WscCredential :=
  { apCredential with ssidLength := 1, ssid := ⟨0xE9 :: replicate 31 0, rfl⟩ }

theorem length_plainM8_latin : ∀ plain ∈ plainM8 xorCrypt ⟨1, fun _ => latinCredential⟩
    (Buf.fill 6 0) apRegistrar, (encodeAll plain).length ≤ 1024 := by
  decide +kernel

/-- A device that checks the SSID refuses this credential. -/
theorem not_roundTrip_latin : latinCredential.Stored ∧ ¬ ∀ plain ap,
    plainM8 xorCrypt ⟨1, fun _ => latinCredential⟩ (Buf.fill 6 0) apRegistrar = some plain →
    (Buf.fill 1024 0).store (encodeAll plain) = some ap →
    ∃ e', wscProcessCredential (encodeAll plain).length
      (staEnrollee.onReg fun r => { r with apEncrSettings := ap }) = some (true, e') := by
  have hstored : latinCredential.Stored :=
    ⟨by decide, by decide, by decide, apCredential_plain.key⟩
  refine ⟨hstored, ?_⟩
  intro hall
  have hfits : latinCredential.Fits := ⟨by decide, by decide⟩
  obtain ⟨inner, keyWrapAuth, hplain⟩ := plainM8_eq xorCrypt
    (show (profileM8 ⟨1, fun _ => latinCredential⟩ (Buf.fill 6 0) apRegistrar).first.Fits
      from hfits)
  obtain ⟨ap, hap⟩ := (Buf.fill 1024 0).store_of_le (length_plainM8_latin _ hplain)
  obtain ⟨e', haccept⟩ := hall _ ap hplain hap
  have hprint : ¬ Printable (latinCredential.sentSsid.takeWhile (· ≠ 0)) := by decide
  obtain ⟨e'', hrefuse⟩ := wscProcessCredential_refuses
    (c := staEnrollee.onReg fun r => { r with apEncrSettings := ap }) rfl
    (length_sentSsid latinCredential) hprint (length_sentKey latinCredential) _ _ _ _ _ _
    (Buf.bytes_of_store hap)
  have hsame := hrefuse.symm.trans haccept
  cases hsame

end RalinkSdk.Wps
