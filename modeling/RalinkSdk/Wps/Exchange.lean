import Mathlib
import RalinkSdk.Wps.Process

/-!
# What a message does at its receiver

The messages M1 to M8 as lists of attributes, and for each of them the state in which the
receiver is afterwards.  A message from M2 on is accepted if it carries the Authenticator for the
bytes that the receiver has sent before.
-/

namespace RalinkSdk.Wps

open Lib Crypt List Option

attribute [simp] Buf.size

/-! ## Values and fields -/

variable {n : Nat}

theorem load_append (field : Buf n) (v rest : List Byte) :
    load field (v ++ rest) v.length = field.store v := by
  simp [load]

@[simp] theorem load_buf {n : Nat} (field b : Buf n) (rest : List Byte) :
    load field (b.bytes ++ rest) n = some b := by
  have hread : readBytes (b.bytes ++ rest) n = some b.bytes :=
    readBytes_append_of_length b.size rest
  simp [load, hread]

@[simp] theorem readField_buf {n : Nat} (b : Buf n) (rest : List Byte) :
    readField n (b.bytes ++ rest) = some b := by
  have htake : (b.bytes ++ rest).take n = b.bytes := by simp
  have hle : n ≤ (b.bytes ++ rest).length := by simp
  rw [readField, dif_pos hle]
  exact congrArg some (Buf.ext htake)

theorem exists_load (field : Buf n) {v : List Byte} (h : v.length ≤ n)
    (rest : List Byte) : ∃ field', load field (v ++ rest) v.length = some field' := by
  rw [load_append]
  exact field.store_of_le h

theorem take_of_load {field field' : Buf n} {v rest : List Byte}
    (h : load field (v ++ rest) v.length = some field') : field'.bytes.take v.length = v := by
  rw [load_append] at h
  rw [Buf.bytes_of_store h, take_left]

@[simp] theorem dispatch_type {σ : Type} (handle : WscId → Nat → List Byte → σ → Option σ)
    (id : WscId) (wscLen : Nat) (pData : List Byte) (s : σ) :
    dispatch handle id.type wscLen pData s = handle id wscLen pData s := by
  simp [dispatch]

variable {id : WscId}

theorem appendWscTlv_buf (b : Buf n) (h : id.len = n) :
    appendWscTlv id b.bytes 0 = some ⟨id.type, b.bytes⟩ := by
  have hread : readBytes b.bytes n = some b.bytes := by
    simpa using readBytes_append_of_length b.size []
  simp [appendWscTlv, h, hread]

@[simp] theorem appendAll_cons_some (a : Attr) (as : List (Option Attr)) :
    appendAll (some a :: as) = (appendAll as).map (a :: ·) := by
  simp [appendAll, map_eq_bind]

/-! ## Saved messages -/

/-- The bytes of a message have been saved. -/
structure WscMessage.Holds (m : WscMessage) (msg : List Byte) : Prop where
  length : m.length = msg.length
  data : ∃ rest, m.data.bytes = msg ++ rest

theorem WscMessage.Holds.bytes {m : WscMessage} {msg : List Byte} (h : m.Holds msg) :
    m.bytes = msg := by
  obtain ⟨rest, hdata⟩ := h.data
  rw [WscMessage.bytes, h.length, hdata, take_left]

theorem WscMessage.exists_save (m : WscMessage) {msg : List Byte} (h : msg.length ≤ 2048) :
    ∃ m', m.save msg = some m' ∧ m'.Holds msg := by
  have hstore : m.data.store msg = some ⟨msg ++ m.data.bytes.drop msg.length, by simp [h]⟩ :=
    dif_pos h
  have hsave : m.save msg = some ⟨msg.length, ⟨msg ++ m.data.bytes.drop msg.length, by simp [h]⟩⟩ := by
    simp [WscMessage.save, hstore]
  exact ⟨_, hsave, rfl, m.data.bytes.drop msg.length, rfl⟩

theorem parseMessage_encodeAll (handle : WscId → Nat → List Byte → Parse → Option Parse)
    {as : List Attr} (hfit : ∀ a ∈ as, a.Fits) (hlast : ∀ a ∈ as.getLast?, a.value ≠ [])
    {s : Parse} (hsaved : s.ctrl.regData.lastRx.Holds (encodeAll as)) :
    ∃ rest, (encodeAll as).length + rest.length = 2048 ∧
      parseMessage handle s = scanAttrs (dispatch handle) rest as s := by
  obtain ⟨rest, hdata⟩ := hsaved.data
  have hsize := s.ctrl.regData.lastRx.data.size
  rw [hdata, length_append] at hsize
  refine ⟨rest, hsize, ?_⟩
  rw [parseMessage, hsaved.length, hdata]
  exact scan_encode hfit hlast rest s

variable (crypt : CryptFns)

/-! ## The Authenticator -/

theorem authenticator_le_digest : 8 ≤ 32 := Nat.le_add_right 8 24

/-- The Authenticator of a message that follows `prev`. -/
def authenticatorOf (authKey : Buf 32) (prev : List Byte) (body : List Attr) : Buf 8 :=
  (crypt.rtHmacSha256 authKey.bytes (prev ++ encodeAll body)).first 8 authenticator_le_digest

def authenticated (authKey : Buf 32) (prev : List Byte) (body : List Attr) : List Attr :=
  body ++ [⟨WscId.authenticator.type, (authenticatorOf crypt authKey prev body).bytes⟩]

variable {prev : List Byte}

theorem appendAuthenticator_eq {r : WscRegData} (hrx : r.lastRx.Holds prev)
    {body : List Attr} (hsize : prev.length + (encodeAll body).length ≤ hmacDataSize) :
    appendAuthenticator crypt r body = some (authenticated crypt r.authKey prev body) := by
  have hread : readBytes (crypt.rtHmacSha256 r.authKey.bytes (prev ++ encodeAll body)).bytes 8 =
      some (authenticatorOf crypt r.authKey prev body).bytes := by
    simp [readBytes, authenticatorOf, Buf.first]
  rw [appendAuthenticator, hrx.length, if_pos hsize, hrx.bytes]
  simp [appendWscTlv, WscId.len, hread, authenticated]

/-- **The receiver computes the same Authenticator** over the bytes that it has sent and what it
    has received. -/
theorem checkHmac_authenticated {r : WscRegData} (htx : r.lastTx.Holds prev)
    {body : List Attr} (hrx : r.lastRx.Holds (encodeAll (authenticated crypt r.authKey prev body)))
    (hsize : prev.length + (encodeAll body).length ≤ hmacDataSize) :
    checkHmac crypt r (authenticatorOf crypt r.authKey prev body) = some true := by
  have hlen : r.lastRx.length = (encodeAll body).length + 12 := by
    rw [hrx.length]
    simp [authenticated]
  have htake : r.lastRx.bytes.take (encodeAll body).length = encodeAll body := by
    rw [hrx.bytes]
    simp [authenticated]
  have hsub : (encodeAll body).length + 12 - 12 = (encodeAll body).length := Nat.add_sub_cancel _ _
  rw [checkHmac, hlen, hsub, htake, htx.bytes, if_pos ⟨by omega, by rw [htx.length]; exact hsize⟩]
  simp [authenticatorOf]

theorem Parse.wanting_of_seen {s : Parse} (h : s.fieldCheck = fun _ => false) :
    s.wanting = false := by
  rw [Parse.wanting, h]
  rfl

theorem checkMessage_accepts {s : Parse} {body : List Attr} (htx : s.ctrl.regData.lastTx.Holds prev)
    (hrx : s.ctrl.regData.lastRx.Holds
      (encodeAll (authenticated crypt s.ctrl.regData.authKey prev body)))
    (hsize : prev.length + (encodeAll body).length ≤ hmacDataSize)
    (hhmac : s.hmac = authenticatorOf crypt s.ctrl.regData.authKey prev body)
    (hseen : s.fieldCheck = fun _ => false) : checkMessage crypt s = some (.noError, s.ctrl) := by
  have hwanting := Parse.wanting_of_seen hseen
  rw [checkMessage, hhmac, checkHmac_authenticated crypt htx hrx hsize]
  simp [hwanting]

/-- `receive` with any value in `Hmac` at the start. -/
def receiveFrom (mandatory : List WscId)
    (handle : WscId → Nat → List Byte → Parse → Option Parse) (hmac : Buf 8) (msg : List Byte)
    (c : WscCtrl) : Option Parse := do
  parseMessage handle (← startParse mandatory hmac msg c)

theorem receive_eq (mandatory : List WscId)
    (handle : WscId → Nat → List Byte → Parse → Option Parse) :
    receive mandatory handle = receiveFrom mandatory handle noHmac := rfl

theorem exists_receive (mandatory : List WscId)
    (handle : WscId → Nat → List Byte → Parse → Option Parse) {as : List Attr}
    (hsize : (encodeAll as).length ≤ 2048) (hlast : ∀ a ∈ as.getLast?, a.value ≠ [])
    (hmac : Buf 8) (c : WscCtrl) :
    ∃ m rest, m.Holds (encodeAll as) ∧ (encodeAll as).length + rest.length = 2048 ∧
      receiveFrom mandatory handle hmac (encodeAll as) c = scanAttrs (dispatch handle) rest as
        ⟨c.onReg fun r => { r with lastRx := m }, hmac, fun id => mandatory.contains id⟩ := by
  obtain ⟨m, hsave, hm⟩ := c.regData.lastRx.exists_save hsize
  have hfit := fits_of_length (lt_of_le_of_lt hsize (by decide))
  obtain ⟨rest, hrest, hscan⟩ := parseMessage_encodeAll handle hfit hlast
    (s := ⟨c.onReg fun r => { r with lastRx := m }, hmac, fun id => mandatory.contains id⟩) hm
  refine ⟨m, rest, hm, hrest, ?_⟩
  rw [← hscan, receiveFrom, startParse, hsave]
  rfl

theorem parseAuthenticator_last (hmac : Buf 8) (c : WscCtrl) (a : Buf 8) (rest : List Byte) :
    parseAuthenticator 8 (a.bytes ++ rest) ⟨c, hmac, fun id => id = .authenticator⟩ =
      some ⟨c, a, fun _ => false⟩ := by
  simp [parseAuthenticator, Parse.seen]
  funext id
  cases id <;> rfl

/-! ## What follows the attributes of a message -/

/-- The attribute of version 2, or one with a number that is not an attribute. -/
def IsExtra (a : Attr) : Prop :=
  (∃ version2 : Byte, a = ⟨WscId.vendorExt.type, [0x00, 0x37, 0x2A, 0x00, 0x01, version2]⟩) ∨
    WscId.ofType a.type = none

/-- Attributes at the end of a message that do not count. -/
structure Extra (ext : List Attr) : Prop where
  isExtra : ∀ a ∈ ext, IsExtra a
  length_le : (encodeAll ext).length ≤ 270

variable {ext : List Attr}

theorem Extra.scanAttrs {σ : Type} {handle : WscId → Nat → List Byte → σ → Option σ}
    (hvendor : ∀ len p s, handle .vendorExt len p s = some s)
    (hext : Extra ext) (rest : List Byte) (s : σ) :
    scanAttrs (dispatch handle) rest ext s = some s := by
  apply scanAttrs_of_ignored
  intro a ha len p s
  obtain ⟨version2, rfl⟩ | hunknown := hext.isExtra a ha
  · simp [hvendor]
  · simp [dispatch, hunknown]

variable {c : WscCtrl}

/-- **The walk over a message with an Authenticator**: what the attributes do, and then the
    Authenticator is in `Hmac` and no bit is set. -/
theorem receiveFrom_authenticated (mandatory : List WscId)
    (handle : WscId → Nat → List Byte → Parse → Option Parse) {body ext : List Attr}
    {P : WscMessage → WscCtrl → Prop} {hmac : Buf 8} {fieldCheck : WscId → Bool}
    (hext : ∀ rest s, scanAttrs (dispatch handle) rest ext s = some s)
    (hauth : ∀ (c : WscCtrl) (a : Buf 8) rest,
      handle .authenticator 8 (a.bytes ++ rest) ⟨c, hmac, fieldCheck⟩ =
        some ⟨c, a, fun _ => false⟩)
    (hsize : (encodeAll (body ++ ext)).length ≤ 1500)
    (hbody : ∀ m rest, rest ≠ [] → ∃ c', P m c' ∧ scanAttrs (dispatch handle) rest body
      ⟨c.onReg fun r => { r with lastRx := m }, hmac, fun id => mandatory.contains id⟩ =
        some ⟨c', hmac, fieldCheck⟩) (authKey : Buf 32) (prev : List Byte) :
    ∃ m c', m.Holds (encodeAll (authenticated crypt authKey prev (body ++ ext))) ∧ P m c' ∧
      receiveFrom mandatory handle hmac
        (encodeAll (authenticated crypt authKey prev (body ++ ext))) c =
        some ⟨c', authenticatorOf crypt authKey prev (body ++ ext), fun _ => false⟩ := by
  have hlen : (encodeAll (authenticated crypt authKey prev (body ++ ext))).length ≤ 2048 := by
    simp [authenticated] at hsize ⊢
    omega
  have hlast : ∀ a ∈ (authenticated crypt authKey prev (body ++ ext)).getLast?, a.value ≠ [] := by
    intro a ha
    simp [authenticated] at ha
    subst ha
    exact ne_nil_of_length_pos (by simp)
  obtain ⟨m, rest, hm, -, hparse⟩ := exists_receive mandatory handle hlen hlast hmac c
  obtain ⟨c', hP, hscan⟩ := hbody m (encodeAll ext ++ (encodeAll
    [⟨WscId.authenticator.type, (authenticatorOf crypt authKey prev (body ++ ext)).bytes⟩] ++ rest))
    (by simp [Attr.encode, be16])
  refine ⟨m, c', hm, hP, ?_⟩
  rw [hparse, authenticated, scanAttrs_append, scanAttrs_append, hscan]
  simp [hext, scanAttrs, hauth]

/-- What a message does before it is checked leaves the messages and the key as they are. -/
structure KeepsCheck (c : WscCtrl) (m : WscMessage) (c' : WscCtrl) : Prop where
  lastTx : c'.regData.lastTx = c.regData.lastTx
  lastRx : c'.regData.lastRx = m
  authKey : c'.regData.authKey = c.regData.authKey

/-- **A message with the right Authenticator passes the check**, whatever its attributes do. -/
theorem accepts_authenticated (mandatory : List WscId)
    (handle : WscId → Nat → List Byte → Parse → Option Parse) {body ext : List Attr}
    (htx : c.regData.lastTx.Holds prev)
    (hprev : prev.length ≤ 1200) {P : WscMessage → WscCtrl → Prop} {hmac : Buf 8}
    {fieldCheck : WscId → Bool}
    (hvendor : ∀ len p s, handle .vendorExt len p s = some s)
    (hauth : ∀ (c : WscCtrl) (a : Buf 8) rest,
      handle .authenticator 8 (a.bytes ++ rest) ⟨c, hmac, fieldCheck⟩ =
        some ⟨c, a, fun _ => false⟩)
    (hext : Extra ext) (hsize : (encodeAll body).length ≤ 550)
    (hbody : ∀ m rest, ∃ c', P m c' ∧ scanAttrs (dispatch handle) rest body
      ⟨c.onReg fun r => { r with lastRx := m }, hmac, fun id => mandatory.contains id⟩ =
        some ⟨c', hmac, fieldCheck⟩)
    (hkeeps : ∀ m c', P m c' → KeepsCheck c m c') :
    ∃ m c', m.Holds (encodeAll (authenticated crypt c.regData.authKey prev (body ++ ext))) ∧
      P m c' ∧
      receiveFrom mandatory handle hmac
        (encodeAll (authenticated crypt c.regData.authKey prev (body ++ ext))) c =
          some ⟨c', authenticatorOf crypt c.regData.authKey prev (body ++ ext), fun _ => false⟩ ∧
      checkMessage crypt
          ⟨c', authenticatorOf crypt c.regData.authKey prev (body ++ ext), fun _ => false⟩ =
        some (.noError, c') := by
  have hlen := hext.length_le
  obtain ⟨m, c', hm, hP, hparse⟩ := receiveFrom_authenticated crypt mandatory handle
    (hext.scanAttrs hvendor) hauth (by simp; omega) (fun m rest _ => hbody m rest)
    c.regData.authKey prev
  have hkeeps := hkeeps m c' hP
  refine ⟨m, c', hm, hP, hparse, ?_⟩
  apply checkMessage_accepts crypt
    (s := ⟨c', authenticatorOf crypt c.regData.authKey prev (body ++ ext), fun _ => false⟩)
    (hkeeps.lastTx ▸ htx)
  · show c'.regData.lastRx.Holds _
    rw [hkeeps.lastRx, hkeeps.authKey]
    exact hm
  · simp [hmacDataSize]
    omega
  · rw [hkeeps.authKey]
  · rfl

/-! ## The description of a device -/

def attrOf (x : WscId × List Byte) : Attr := ⟨x.1.type, x.2⟩

variable {handle : WscId → Nat → List Byte → Parse → Option Parse}

theorem scanAttrs_seen {R : WscCtrl → WscCtrl → Prop} (hrefl : ∀ c, R c c)
    (htrans : ∀ {a b c}, R a b → R b c → R a c) {pairs : List (WscId × List Byte)}
    (hstep : ∀ x ∈ pairs, ∀ rest s, rest ≠ [] → ∃ c', R s.ctrl c' ∧
      handle x.1 x.2.length (x.2 ++ rest) s = some ({ s with ctrl := c' }.seen x.1))
    {rest : List Byte} (hrest : rest ≠ []) (c : WscCtrl) (hmac : Buf 8)
    (fieldCheck : WscId → Bool) :
    ∃ c', R c c' ∧ scanAttrs (dispatch handle) rest (pairs.map attrOf) ⟨c, hmac, fieldCheck⟩ =
      some ⟨c', hmac, (pairs.map Prod.fst).foldl toggle fieldCheck⟩ := by
  induction pairs generalizing c fieldCheck with
  | nil => exact ⟨c, hrefl c, rfl⟩
  | cons x pairs ih =>
    obtain ⟨c₁, h₁, hx⟩ := hstep x mem_cons_self (encodeAll (pairs.map attrOf) ++ rest)
      ⟨c, hmac, fieldCheck⟩ (by simp [hrest])
    obtain ⟨c₂, h₂, hpairs⟩ := ih (fun y hy => hstep y (mem_cons_of_mem x hy)) c₁
      (toggle fieldCheck x.1)
    refine ⟨c₂, htrans h₁ h₂, ?_⟩
    show (dispatch handle x.1.type x.2.length (x.2 ++ _) _).bind _ = _
    rw [dispatch_type, hx]
    exact hpairs

/-- An attribute that M1 and M2 handle alike, with a value that fits. -/
inductive PeerAttr : WscId × List Byte → Prop where
  | version (v : List Byte) : PeerAttr (.version, v)
  | msgType (v : List Byte) : PeerAttr (.msgType, v)
  | authTypeFlags (b : Buf 2) : PeerAttr (.authTypeFlags, b.bytes)
  | encrTypeFlags (b : Buf 2) : PeerAttr (.encrTypeFlags, b.bytes)
  | connTypeFlags (x : Byte) : PeerAttr (.connTypeFlags, [x])
  | configMethods (b : Buf 2) : PeerAttr (.configMethods, b.bytes)
  | manufacturer {v : List Byte} (h : v.length ≤ 64) : PeerAttr (.manufacturer, v)
  | modelName {v : List Byte} (h : v.length ≤ 32) : PeerAttr (.modelName, v)
  | modelNumber {v : List Byte} (h : v.length ≤ 32) : PeerAttr (.modelNumber, v)
  | serialNum {v : List Byte} (h : v.length ≤ 32) : PeerAttr (.serialNum, v)
  | primDevType (b : Buf 8) : PeerAttr (.primDevType, b.bytes)
  | deviceName {v : List Byte} (h : v.length ≤ 32) : PeerAttr (.deviceName, v)
  | rfBand (x : Byte) : PeerAttr (.rfBand, [x])
  | assocState (b : Buf 2) : PeerAttr (.assocState, b.bytes)
  | configError (b : Buf 2) : PeerAttr (.configError, b.bytes)
  | osVersion (b : Buf 4) : PeerAttr (.osVersion, b.bytes)

theorem bind_of_read {α : Type} {read : Option α} {v : α} (h : read = some v)
    (k : α → Option Parse) : read.bind k = k v := by
  rw [h]
  rfl

theorem of_bind_some {α σ : Type} {read : Option α} {f : α → σ} {s : σ}
    (h : (read.bind fun v => some (f v)) = some s) : ∃ v, s = f v := by
  obtain ⟨v, -, hv⟩ := bind_eq_some_iff.mp h
  exact ⟨v, (some.inj hv).symm⟩

variable {x : WscId × List Byte}

theorem parsePeerInfo_attr (hx : PeerAttr x) (rest : List Byte) (s : Parse) :
    ∃ peer, peer.macAddr = s.ctrl.regData.peerInfo.macAddr ∧
      parsePeerInfo x.1 x.2.length (x.2 ++ rest) s =
        some ({ s with ctrl := s.ctrl.onPeer fun _ => peer }.seen x.1) := by
  let d := s.ctrl.regData.peerInfo
  cases hx with
  | version v => exact ⟨d, rfl, rfl⟩
  | msgType v => exact ⟨d, rfl, rfl⟩
  | authTypeFlags b =>
    exact ⟨{ d with authTypeFlags := b }, rfl, bind_of_read (readField_buf b rest) _⟩
  | encrTypeFlags b =>
    exact ⟨{ d with encrTypeFlags := b }, rfl, bind_of_read (readField_buf b rest) _⟩
  | connTypeFlags y => exact ⟨{ d with connTypeFlags := y }, rfl, rfl⟩
  | configMethods b =>
    exact ⟨{ d with configMethods := b }, rfl, bind_of_read (readField_buf b rest) _⟩
  | manufacturer h =>
    obtain ⟨b, hload⟩ := exists_load d.manufacturer h rest
    exact ⟨{ d with manufacturer := b }, rfl, bind_of_read hload _⟩
  | modelName h =>
    obtain ⟨b, hload⟩ := exists_load d.modelName h rest
    exact ⟨{ d with modelName := b }, rfl, bind_of_read hload _⟩
  | modelNumber h =>
    obtain ⟨b, hload⟩ := exists_load d.modelNumber h rest
    exact ⟨{ d with modelNumber := b }, rfl, bind_of_read hload _⟩
  | serialNum h =>
    obtain ⟨b, hload⟩ := exists_load d.serialNumber h rest
    exact ⟨{ d with serialNumber := b }, rfl, bind_of_read hload _⟩
  | primDevType b =>
    have hload : load d.priDeviceType (b.bytes ++ rest) b.bytes.length = some b := by simp
    exact ⟨{ d with priDeviceType := b }, rfl, bind_of_read hload _⟩
  | deviceName h =>
    obtain ⟨b, hload⟩ := exists_load d.deviceName h rest
    exact ⟨{ d with deviceName := b }, rfl, bind_of_read hload _⟩
  | rfBand y => exact ⟨{ d with rfBand := y }, rfl, rfl⟩
  | assocState b =>
    exact ⟨{ d with assocState := b }, rfl, bind_of_read (readField_buf b rest) _⟩
  | configError b =>
    exact ⟨{ d with configError := b }, rfl, bind_of_read (readField_buf b rest) _⟩
  | osVersion b =>
    exact ⟨{ d with osVersion := b }, rfl, bind_of_read (readField_buf b rest) _⟩

theorem scanAttrs_peerExtra (handle : WscId → Nat → List Byte → Parse → Option Parse)
    (hvendor : ∀ len p s, handle .vendorExt len p s = parsePeerInfo .vendorExt len p s)
    (hext : ∀ a ∈ ext, IsExtra a) (rest : List Byte) (s : Parse) :
    ∃ version2, scanAttrs (dispatch handle) rest ext s =
      some (s.onPeer fun d => { d with version2 }) := by
  induction ext generalizing s with
  | nil => exact ⟨s.ctrl.regData.peerInfo.version2, rfl⟩
  | cons a ext ih =>
    have hstep : ∃ version2, dispatch handle a.type a.value.length
        (a.value ++ (encodeAll ext ++ rest)) s = some (s.onPeer fun d => { d with version2 }) := by
      obtain ⟨v, rfl⟩ | hunknown := hext a mem_cons_self
      · have hitem : ∀ b, wscParseV2SubItem 6 ([0x00, 0x37, 0x2A, 0x00, 0x01, v] ++
            (encodeAll ext ++ rest)) b = some v := by
          intro b
          simp [wscParseV2SubItem, parseV2SubItem, readBytes]
        rw [dispatch_type, hvendor]
        by_cases hv2 : s.ctrl.bEnableWpsV2
        · refine ⟨v, ?_⟩
          simp only [parsePeerInfo, if_pos hv2]
          exact bind_of_read (hitem _) _
        · refine ⟨s.ctrl.regData.peerInfo.version2, ?_⟩
          simp only [parsePeerInfo, if_neg hv2]
          rfl
      · exact ⟨s.ctrl.regData.peerInfo.version2, by simp only [dispatch, hunknown]; rfl⟩
    obtain ⟨v₁, h₁⟩ := hstep
    obtain ⟨v₂, h₂⟩ := ih (fun b hb => hext b (mem_cons_of_mem a hb))
      (s.onPeer fun d => { d with version2 := v₁ })
    exact ⟨v₂, by rw [scanAttrs, h₁, bind_some, h₂]; rfl⟩

/-- The strings that describe a device, as they are sent. -/
structure DeviceStrings where
  manufacturer : List Byte
  modelName : List Byte
  modelNumber : List Byte
  serialNumber : List Byte
  deviceName : List Byte
  manufacturer_le : manufacturer.length ≤ 64
  modelName_le : modelName.length ≤ 32
  modelNumber_le : modelNumber.length ≤ 32
  serialNumber_le : serialNumber.length ≤ 32
  deviceName_le : deviceName.length ≤ 32

def flagPairs (d : WscDevInfo) : List (WscId × List Byte) :=
  [(.authTypeFlags, d.authTypeFlags.bytes),
    (.encrTypeFlags, d.encrTypeFlags.bytes),
    (.connTypeFlags, [d.connTypeFlags])]

def devicePairs (d : WscDevInfo) (t : DeviceStrings) : List (WscId × List Byte) :=
  [(.manufacturer, t.manufacturer),
    (.modelName, t.modelName),
    (.modelNumber, t.modelNumber),
    (.serialNum, t.serialNumber),
    (.primDevType, d.priDeviceType.bytes),
    (.deviceName, t.deviceName),
    (.rfBand, [d.rfBand]),
    (.assocState, d.assocState.bytes)]

theorem length_devicePairs (d : WscDevInfo) (t : DeviceStrings) :
    (encodeAll ((devicePairs d t).map attrOf)).length ≤ 235 := by
  have h₁ := t.manufacturer_le
  have h₂ := t.modelName_le
  have h₃ := t.modelNumber_le
  have h₄ := t.serialNumber_le
  have h₅ := t.deviceName_le
  simp [devicePairs, attrOf]
  omega

theorem peerAttr_flagPairs (d : WscDevInfo) : ∀ x ∈ flagPairs d, PeerAttr x := by
  simp only [flagPairs, forall_mem_cons, not_mem_nil, false_imp_iff, implies_true, and_true]
  exact ⟨.authTypeFlags _, .encrTypeFlags _, .connTypeFlags _⟩

theorem peerAttr_devicePairs (d : WscDevInfo) (t : DeviceStrings) :
    ∀ x ∈ devicePairs d t, PeerAttr x := by
  simp only [devicePairs, forall_mem_cons, not_mem_nil, false_imp_iff, implies_true, and_true]
  exact ⟨.manufacturer t.manufacturer_le, .modelName t.modelName_le,
    .modelNumber t.modelNumber_le, .serialNum t.serialNumber_le, .primDevType _,
    .deviceName t.deviceName_le, .rfBand _, .assocState _⟩

/-! ## M1 -/

/-- The attributes of M1 before the address of the enrollee. -/
def frontM1 (e : WscCtrl) : List (WscId × List Byte) :=
  [(.version, [e.regData.selfInfo.version]),
    (.msgType, [0x04]),
    (.uuidE, e.wscUuidE.bytes)]

/-- The attributes of M1 that the registrar needs. -/
def keysM1 (e : WscCtrl) : List (WscId × List Byte) :=
  [(.macAddr, e.regData.selfInfo.macAddr.bytes),
    (.enrolleeNonce, e.regData.selfNonce.bytes),
    (.publicKey, e.regData.pke.bytes)]

def backM1 (e : WscCtrl) (t : DeviceStrings) : List (WscId × List Byte) :=
  flagPairs e.regData.selfInfo ++
  [(.configMethods, be16 (sentConfigMethods e)),
    (.scState, [e.regData.selfInfo.scState])] ++
  devicePairs e.regData.selfInfo t ++
  [(.devicePwdId, e.regData.selfInfo.devPwdId.bytes),
    (.configError, [0, 0]),
    (.osVersion, e.regData.selfInfo.osVersion.bytes)]

def bodyM1 (e : WscCtrl) (t : DeviceStrings) : List Attr :=
  (frontM1 e ++ keysM1 e ++ backM1 e t).map attrOf

theorem length_bodyM1 (e : WscCtrl) (t : DeviceStrings) :
    (encodeAll (bodyM1 e t)).length ≤ 539 := by
  have h := length_devicePairs e.regData.selfInfo t
  simp [bodyM1, frontM1, keysM1, backM1, flagPairs, attrOf, be16] at h ⊢
  omega

/-- What the other attributes of M1 change. -/
def FrameM1 (c c' : WscCtrl) : Prop :=
  ∃ (peer : WscDevInfo) (devPwdId : Buf 2) (bConfiguredAp : Bool),
    peer.macAddr = c.regData.peerInfo.macAddr ∧
    c' = (c.setConfiguredAp bConfiguredAp).onReg fun r =>
      { r with peerInfo := peer, selfInfo := { r.selfInfo with devPwdId } }

theorem FrameM1.refl (c : WscCtrl) : FrameM1 c c :=
  ⟨c.regData.peerInfo, c.regData.selfInfo.devPwdId, c.bConfiguredAp, rfl, rfl⟩

theorem FrameM1.trans {a b c : WscCtrl} (h₁ : FrameM1 a b) (h₂ : FrameM1 b c) : FrameM1 a c := by
  obtain ⟨peer₁, devPwdId₁, b₁, hmac₁, rfl⟩ := h₁
  obtain ⟨peer₂, devPwdId₂, b₂, hmac₂, rfl⟩ := h₂
  exact ⟨peer₂, devPwdId₂, b₂, hmac₂.trans hmac₁, rfl⟩

theorem parseM1_peerAttr (hx : PeerAttr x) (rest : List Byte) (s : Parse)
    (_ : rest ≠ []) : ∃ c', FrameM1 s.ctrl c' ∧
      parseM1 x.1 x.2.length (x.2 ++ rest) s = some ({ s with ctrl := c' }.seen x.1) := by
  obtain ⟨peer, hmac, hparse⟩ := parsePeerInfo_attr hx rest s
  have hsame : parseM1 x.1 x.2.length (x.2 ++ rest) s =
      parsePeerInfo x.1 x.2.length (x.2 ++ rest) s := by
    cases hx <;> rfl
  exact ⟨_, ⟨peer, s.ctrl.regData.selfInfo.devPwdId, s.ctrl.bConfiguredAp, hmac, rfl⟩,
    hsame.trans hparse⟩

theorem parseM1_frontM1 (e : WscCtrl) : ∀ x ∈ frontM1 e, ∀ rest s, rest ≠ [] →
    ∃ c', FrameM1 s.ctrl c' ∧ parseM1 x.1 x.2.length (x.2 ++ rest) s = some ({ s with ctrl := c' }.seen x.1) := by
  simp only [frontM1, forall_mem_cons, not_mem_nil, false_imp_iff, implies_true, and_true]
  refine ⟨parseM1_peerAttr (.version _), parseM1_peerAttr (.msgType _), ?_⟩
  intro rest s _
  have hload : load s.ctrl.regData.peerInfo.uuid (e.wscUuidE.bytes ++ rest)
      e.wscUuidE.bytes.length = some e.wscUuidE := by simp
  exact ⟨_, ⟨{ s.ctrl.regData.peerInfo with uuid := e.wscUuidE }, _, _, rfl, rfl⟩,
    bind_of_read hload _⟩

theorem parseM1_backM1 (e : WscCtrl) (t : DeviceStrings) : ∀ x ∈ backM1 e t, ∀ rest s, rest ≠ [] →
    ∃ c', FrameM1 s.ctrl c' ∧
      parseM1 x.1 x.2.length (x.2 ++ rest) s = some ({ s with ctrl := c' }.seen x.1) := by
  simp only [backM1, forall_mem_append, forall_mem_cons, not_mem_nil,
    false_imp_iff, implies_true, and_true]
  refine ⟨⟨⟨?_, ?_, ?_⟩, ?_⟩, ?_, ?_, ?_⟩
  · exact fun x hx => parseM1_peerAttr (peerAttr_flagPairs _ x hx)
  · exact parseM1_peerAttr (.configMethods ⟨be16 (sentConfigMethods e), rfl⟩)
  · -- the code reads a byte more than the attribute has
    intro rest s hrest
    obtain ⟨y, ys, rfl⟩ := exists_cons_of_ne_nil hrest
    let peer := { s.ctrl.regData.peerInfo with scState := e.regData.selfInfo.scState }
    let devPwdId := s.ctrl.regData.selfInfo.devPwdId
    have hparse : parseM1 .scState 1 ([e.regData.selfInfo.scState] ++ y :: ys) s =
        some ((if s.ctrl.opMode = .staMode then
          ⟨(s.ctrl.onPeer fun _ => peer).setConfiguredAp (e.regData.selfInfo.scState = 0x02), s.hmac,
            s.fieldCheck⟩
          else s.onPeer fun _ => peer).seen .scState) := rfl
    show ∃ c', _ ∧ parseM1 .scState 1 ([e.regData.selfInfo.scState] ++ y :: ys) s = _
    rw [hparse]
    split
    · exact ⟨_, ⟨peer, devPwdId, _, rfl, rfl⟩, rfl⟩
    · exact ⟨_, ⟨peer, devPwdId, s.ctrl.bConfiguredAp, rfl, rfl⟩, rfl⟩
  · exact fun x hx => parseM1_peerAttr (peerAttr_devicePairs _ t x hx)
  · intro rest s _
    exact ⟨_, ⟨_, devPwdIdM1 e.regData.selfInfo.devPwdId s.ctrl.regData.selfInfo.devPwdId, _, rfl,
      rfl⟩, bind_of_read (readField_buf e.regData.selfInfo.devPwdId rest) _⟩
  · exact parseM1_peerAttr (.configError ⟨[0, 0], rfl⟩)
  · exact parseM1_peerAttr (.osVersion _)

/-- What the attributes of M1 that the registrar needs do. -/
def keepKeysM1 (e c : WscCtrl) : WscCtrl := c.onReg fun r => { r with
  peerInfo := { r.peerInfo with macAddr := e.regData.selfInfo.macAddr }
  enrolleeNonce := e.regData.selfNonce
  pke := e.regData.pke }

theorem scanAttrs_keysM1 (e : WscCtrl) (rest : List Byte) (c : WscCtrl) (hmac : Buf 8)
    (fieldCheck : WscId → Bool) :
    scanAttrs (dispatch parseM1) rest ((keysM1 e).map attrOf) ⟨c, hmac, fieldCheck⟩ =
      some ⟨keepKeysM1 e c, hmac, ((keysM1 e).map Prod.fst).foldl toggle fieldCheck⟩ := by
  simp [keysM1, attrOf, scanAttrs, parseM1]
  rfl

variable {rest : List Byte}

theorem scanAttrs_bodyM1 (e : WscCtrl) (t : DeviceStrings) (hrest : rest ≠ []) (c : WscCtrl) :
    ∃ c₁ c₂, FrameM1 c c₁ ∧ FrameM1 (keepKeysM1 e c₁) c₂ ∧
      scanAttrs (dispatch parseM1) rest (bodyM1 e t)
        ⟨c, noHmac, fun id => mandatoryM1.contains id⟩ = some ⟨c₂, noHmac, fun _ => false⟩ := by
  have hbackRest : encodeAll ((keysM1 e).map attrOf) ++
      (encodeAll ((backM1 e t).map attrOf) ++ rest) ≠ [] := by simp [hrest]
  obtain ⟨c₁, hc₁, hfront⟩ := scanAttrs_seen FrameM1.refl FrameM1.trans (parseM1_frontM1 e)
    hbackRest c noHmac fun id => mandatoryM1.contains id
  obtain ⟨c₂, hc₂, hback⟩ := scanAttrs_seen FrameM1.refl FrameM1.trans (parseM1_backM1 e t) hrest
    (keepKeysM1 e c₁) noHmac (((keysM1 e).map Prod.fst).foldl toggle
      (((frontM1 e).map Prod.fst).foldl toggle fun id => mandatoryM1.contains id))
  refine ⟨c₁, c₂, hc₁, hc₂, ?_⟩
  rw [bodyM1, map_append, map_append, append_assoc, scanAttrs_append, encodeAll_append,
    append_assoc, hfront, bind_some, scanAttrs_append, scanAttrs_keysM1, bind_some, hback]
  congr 2
  funext id
  cases id <;> rfl

/-- **M1 is accepted**: the registrar keeps the nonce, the key and the address of the enrollee. -/
theorem processMessageM1_accepts (e : WscCtrl) (t : DeviceStrings) {ext₁ ext₂ : List Attr}
    (hext₁ : Extra ext₁) (hext₂ : Extra ext₂) (hlast : ∀ a ∈ ext₁ ++ ext₂, a.value ≠ [])
    (random : Buf 192) (c : WscCtrl) :
    let msg := encodeAll (bodyM1 e t ++ (ext₁ ++ ext₂))
    ∃ (m : WscMessage) (peer : WscDevInfo) (devPwdId : Buf 2) (bConfiguredAp : Bool),
      m.Holds msg ∧ peer.macAddr = e.regData.selfInfo.macAddr ∧
      processMessageM1 crypt random msg c =
        some (.noError, (c.setConfiguredAp bConfiguredAp).onReg fun r => { r with
          enrolleeRandom := random
          pkr := crypt.rtDhPublicKeyGenerate random
          lastRx := m
          peerInfo := peer
          enrolleeNonce := e.regData.selfNonce
          pke := e.regData.pke
          selfInfo := { r.selfInfo with devPwdId } }) := by
  intro msg
  have hlen : msg.length ≤ 1079 := by
    have h := length_bodyM1 e t
    have h₁ := hext₁.length_le
    have h₂ := hext₂.length_le
    simp [msg]
    omega
  have hlast' : ∀ a ∈ (bodyM1 e t ++ (ext₁ ++ ext₂)).getLast?, a.value ≠ [] := by
    intro a ha
    rw [getLast?_append] at ha
    cases hext : (ext₁ ++ ext₂).getLast? with
    | none =>
      rw [hext] at ha
      simp [bodyM1, backM1, devicePairs, getLast?_append, getLast?_cons, attrOf] at ha
      subst ha
      exact ne_nil_of_length_pos (by simp)
    | some b =>
      rw [hext] at ha
      obtain rfl : b = a := by simpa using ha
      exact hlast b (mem_of_getLast? hext)
  let c₀ := (c.onPeer fun d => { d with version2 := 0 }).onReg fun r =>
    { r with enrolleeRandom := random, pkr := crypt.rtDhPublicKeyGenerate random }
  obtain ⟨m, rest, hm, hsize, hreceive⟩ := exists_receive mandatoryM1 parseM1
    (le_trans hlen (by decide)) hlast' noHmac c₀
  have hrest : encodeAll (ext₁ ++ ext₂) ++ rest ≠ [] := by
    have htotal : msg.length + rest.length = 2048 := hsize
    simp [ne_nil_of_length_pos (by omega : 0 < rest.length)]
  obtain ⟨c₁, c₂, ⟨peer₁, devPwdId₁, b₁, -, rfl⟩, ⟨peer₂, devPwdId₂, b₂, hmac, rfl⟩, hscan⟩ :=
    scanAttrs_bodyM1 e t hrest (c₀.onReg fun r => { r with lastRx := m })
  obtain ⟨version2, hextra⟩ := scanAttrs_peerExtra parseM1 (fun _ _ _ => rfl)
    (forall_mem_append.mpr ⟨hext₁.isExtra, hext₂.isExtra⟩) rest
    ⟨_, noHmac, fun _ => false⟩
  refine ⟨m, { peer₂ with version2 }, devPwdId₂, b₂, hm, hmac, ?_⟩
  show (receive mandatoryM1 parseM1 msg c₀).bind _ = _
  rw [receive_eq, hreceive, scanAttrs_append, hscan, bind_some, hextra, bind_some,
    Parse.wanting_of_seen rfl]
  simp only [Bool.false_eq_true, if_false, Parse.onPeer, WscCtrl.onPeer, WscCtrl.onReg,
    keepKeysM1, WscCtrl.setConfiguredAp, c₀]

/-! ## M2 -/

/-- The attributes of M2 before the nonce of the registrar. -/
def frontM2 (r : WscCtrl) : List (WscId × List Byte) :=
  [(.version, [r.regData.selfInfo.version]),
    (.msgType, [0x05]),
    (.enrolleeNonce, r.regData.enrolleeNonce.bytes)]

/-- The attributes of M2 with what the enrollee needs. -/
def keysM2 (r : WscCtrl) : List (WscId × List Byte) :=
  [(.registrarNonce, r.regData.registrarNonce.bytes),
    (.uuidR, r.regData.selfInfo.uuid.bytes),
    (.publicKey, r.regData.pkr.bytes)]

def backM2 (r : WscCtrl) (t : DeviceStrings) : List (WscId × List Byte) :=
  flagPairs r.regData.selfInfo ++
  [(.configMethods, be16 (sentConfigMethods r))] ++
  devicePairs r.regData.selfInfo t ++
  [(.configError, r.regData.selfInfo.configError.bytes),
    (.devicePwdId, r.regData.selfInfo.devPwdId.bytes),
    (.osVersion, r.regData.selfInfo.osVersion.bytes)]

def bodyM2 (r : WscCtrl) (t : DeviceStrings) : List Attr :=
  (frontM2 r ++ keysM2 r ++ backM2 r t).map attrOf

theorem length_bodyM2 (r : WscCtrl) (t : DeviceStrings) :
    (encodeAll (bodyM2 r t)).length ≤ 544 := by
  have h := length_devicePairs r.regData.selfInfo t
  simp [bodyM2, frontM2, keysM2, backM2, flagPairs, attrOf, be16] at h ⊢
  omega

/-- What the other attributes of M2 change. -/
def FrameM2 (c c' : WscCtrl) : Prop := ∃ peer, c' = c.onPeer fun _ => peer

theorem FrameM2.refl (c : WscCtrl) : FrameM2 c c := ⟨c.regData.peerInfo, rfl⟩

theorem FrameM2.trans {a b c : WscCtrl} (h₁ : FrameM2 a b) (h₂ : FrameM2 b c) : FrameM2 a c := by
  obtain ⟨peer₁, rfl⟩ := h₁
  obtain ⟨peer₂, rfl⟩ := h₂
  exact ⟨peer₂, rfl⟩

theorem parseM2_peerAttr (hx : PeerAttr x) (rest : List Byte) (s : Parse)
    (_ : rest ≠ []) : ∃ c', FrameM2 s.ctrl c' ∧
      parseM2 x.1 x.2.length (x.2 ++ rest) s = some ({ s with ctrl := c' }.seen x.1) := by
  obtain ⟨peer, -, hparse⟩ := parsePeerInfo_attr hx rest s
  have hsame : parseM2 x.1 x.2.length (x.2 ++ rest) s =
      parsePeerInfo x.1 x.2.length (x.2 ++ rest) s := by
    cases hx <;> rfl
  exact ⟨_, ⟨peer, rfl⟩, hsame.trans hparse⟩

theorem parseM2_frontM2 (r : WscCtrl) : ∀ x ∈ frontM2 r, ∀ rest s, rest ≠ [] →
    ∃ c', FrameM2 s.ctrl c' ∧ parseM2 x.1 x.2.length (x.2 ++ rest) s =
      some ({ s with ctrl := c' }.seen x.1) := by
  simp only [frontM2, forall_mem_cons, not_mem_nil, false_imp_iff, implies_true, and_true]
  exact ⟨parseM2_peerAttr (.version _), parseM2_peerAttr (.msgType _),
    fun _ s _ => ⟨s.ctrl, FrameM2.refl _, rfl⟩⟩

theorem parseM2_backM2 (r : WscCtrl) (t : DeviceStrings) : ∀ x ∈ backM2 r t, ∀ rest s, rest ≠ [] →
    ∃ c', FrameM2 s.ctrl c' ∧ parseM2 x.1 x.2.length (x.2 ++ rest) s =
      some ({ s with ctrl := c' }.seen x.1) := by
  simp only [backM2, forall_mem_append, forall_mem_cons, not_mem_nil,
    false_imp_iff, implies_true, and_true]
  refine ⟨⟨⟨?_, ?_⟩, ?_⟩, ?_, ?_, ?_⟩
  · exact fun x hx => parseM2_peerAttr (peerAttr_flagPairs _ x hx)
  · exact parseM2_peerAttr (.configMethods ⟨be16 (sentConfigMethods r), rfl⟩)
  · exact fun x hx => parseM2_peerAttr (peerAttr_devicePairs _ t x hx)
  · exact parseM2_peerAttr (.configError _)
  · exact fun _ s _ => ⟨s.ctrl, FrameM2.refl _, rfl⟩
  · exact parseM2_peerAttr (.osVersion _)

/-- What the attributes of M2 that the enrollee needs do. -/
def keepKeysM2 (r c : WscCtrl) : WscCtrl := c.onReg fun reg => { reg with
  peerInfo := { reg.peerInfo with uuid := r.regData.selfInfo.uuid }
  registrarNonce := r.regData.registrarNonce
  pkr := r.regData.pkr }

theorem scanAttrs_keysM2 (r : WscCtrl) (rest : List Byte) (c : WscCtrl) (hmac : Buf 8)
    (fieldCheck : WscId → Bool) :
    scanAttrs (dispatch parseM2) rest ((keysM2 r).map attrOf) ⟨c, hmac, fieldCheck⟩ =
      some ⟨keepKeysM2 r c, hmac, ((keysM2 r).map Prod.fst).foldl toggle fieldCheck⟩ := by
  simp [keysM2, attrOf, scanAttrs, parseM2]
  rfl

theorem scanAttrs_bodyM2 (r : WscCtrl) (t : DeviceStrings) (hext : Extra ext)
    (hrest : rest ≠ []) (c : WscCtrl) :
    ∃ peer, scanAttrs (dispatch parseM2) rest (bodyM2 r t ++ ext)
        ⟨c, noHmac, fun id => mandatoryM2.contains id⟩ =
      some ⟨c.onReg fun reg => { reg with
        peerInfo := peer
        registrarNonce := r.regData.registrarNonce
        pkr := r.regData.pkr }, noHmac, fun id => id = .authenticator⟩ := by
  have hbackRest : encodeAll ext ++ rest ≠ [] := by simp [hrest]
  have hfrontRest : encodeAll ((keysM2 r).map attrOf) ++
      (encodeAll ((backM2 r t).map attrOf) ++ (encodeAll ext ++ rest)) ≠ [] := by simp [hrest]
  obtain ⟨c₁, ⟨peer₁, rfl⟩, hfront⟩ := scanAttrs_seen FrameM2.refl FrameM2.trans
    (parseM2_frontM2 r) hfrontRest c noHmac fun id => mandatoryM2.contains id
  obtain ⟨c₂, ⟨peer₂, rfl⟩, hback⟩ := scanAttrs_seen FrameM2.refl FrameM2.trans
    (parseM2_backM2 r t) hbackRest (keepKeysM2 r (c.onPeer fun _ => peer₁)) noHmac
    (((keysM2 r).map Prod.fst).foldl toggle
      (((frontM2 r).map Prod.fst).foldl toggle fun id => mandatoryM2.contains id))
  obtain ⟨version2, hextra⟩ := scanAttrs_peerExtra parseM2 (fun _ _ _ => rfl)
    hext.isExtra rest ⟨(keepKeysM2 r (c.onPeer fun _ => peer₁)).onPeer fun _ => peer₂, noHmac,
      ((backM2 r t).map Prod.fst).foldl toggle (((keysM2 r).map Prod.fst).foldl toggle
        (((frontM2 r).map Prod.fst).foldl toggle fun id => mandatoryM2.contains id))⟩
  refine ⟨{ peer₂ with version2 }, ?_⟩
  rw [scanAttrs_append, bodyM2, map_append, map_append, append_assoc,
    scanAttrs_append, encodeAll_append, append_assoc, hfront, bind_some,
    scanAttrs_append, scanAttrs_keysM2, bind_some, hback, bind_some, hextra]
  simp only [Parse.onPeer, WscCtrl.onPeer, WscCtrl.onReg, keepKeysM2]
  congr 2
  funext id
  cases id <;> rfl

def WscRegData.keysOfM2 (reg : WscRegData) (registrarNonce : Buf 16) (pkr : Buf 192) :
    WscRegData :=
  { reg with registrarNonce, pkr }.deriveKeys crypt
    (crypt.rtDhSecretKeyGenerate pkr reg.enrolleeRandom) reg.selfNonce reg.selfInfo.macAddr
    registrarNonce

/-- **M2 is accepted** if the registrar has derived the same keys: the enrollee keeps its nonce, its
    public key and the keys. -/
theorem processMessageM2_accepts
    (htx : c.regData.lastTx.Holds prev) (hprev : prev.length ≤ 1200) (r : WscCtrl)
    (t : DeviceStrings) (hext : Extra ext) :
    let keys := c.regData.keysOfM2 crypt r.regData.registrarNonce r.regData.pkr
    let msg := encodeAll (authenticated crypt keys.authKey prev (bodyM2 r t ++ ext))
    ∃ m peer, m.Holds msg ∧ processMessageM2 crypt msg c =
      some (.noError, c.onReg fun _ => { keys with peerInfo := peer, lastRx := m }) := by
  intro keys msg
  let c₀ := c.onPeer fun d => { d with version2 := 0 }
  have hlen : (encodeAll (bodyM2 r t ++ ext)).length ≤ 814 := by
    have hbody := length_bodyM2 r t
    have hextlen := hext.length_le
    simp
    omega
  have hsize : (encodeAll (bodyM2 r t ++ ext ++ [])).length ≤ 1500 := by
    rw [append_nil]
    omega
  obtain ⟨m, c', hm, ⟨peer, rfl⟩, hreceive⟩ := receiveFrom_authenticated crypt mandatoryM2 parseM2
    (c := c₀) (P := fun m c' => ∃ peer, c' = c₀.onReg fun reg => { reg with
      lastRx := m
      peerInfo := peer
      registrarNonce := r.regData.registrarNonce
      pkr := r.regData.pkr })
    (fun _ _ => rfl) (parseAuthenticator_last noHmac) hsize
    (fun m rest hrest => by
      obtain ⟨peer, hscan⟩ := scanAttrs_bodyM2 r t hext hrest
        (c₀.onReg fun reg => { reg with lastRx := m })
      exact ⟨_, ⟨peer, rfl⟩, hscan⟩)
    keys.authKey prev
  rw [append_nil] at hm hreceive
  refine ⟨m, peer, hm, ?_⟩
  have hcheck : checkMessage crypt ⟨c.onReg fun _ => { keys with peerInfo := peer, lastRx := m },
      authenticatorOf crypt keys.authKey prev (bodyM2 r t ++ ext), fun _ => false⟩ =
      some (.noError, c.onReg fun _ => { keys with peerInfo := peer, lastRx := m }) :=
    checkMessage_accepts crypt (s := ⟨_, _, fun _ => false⟩) htx hm
      (by rw [hmacDataSize]; omega) rfl rfl
  rw [← hcheck, processMessageM2]
  show (receive mandatoryM2 parseM2 msg c₀).bind _ = _
  rw [receive_eq, hreceive]
  rfl

/-! ## M3 -/

def bodyM3 (version : Byte) (registrarNonce : Buf 16) (eHash1 eHash2 : Buf 32) : List Attr :=
  [⟨WscId.version.type, [version]⟩,
    ⟨WscId.msgType.type, [0x07]⟩,
    ⟨WscId.registrarNonce.type, registrarNonce.bytes⟩,
    ⟨WscId.eHash1.type, eHash1.bytes⟩,
    ⟨WscId.eHash2.type, eHash2.bytes⟩]

@[simp] theorem length_bodyM3 (version : Byte) (registrarNonce : Buf 16) (eHash1 eHash2 : Buf 32) :
    (encodeAll (bodyM3 version registrarNonce eHash1 eHash2)).length = 102 := by
  simp [bodyM3]

theorem scanAttrs_bodyM3 (version : Byte) (registrarNonce : Buf 16) (eHash1 eHash2 : Buf 32)
    (hmac : Buf 8) (c : WscCtrl) (rest : List Byte) :
    scanAttrs (dispatch parseM3) rest (bodyM3 version registrarNonce eHash1 eHash2)
      ⟨c, hmac, fun id => mandatoryM3.contains id⟩ =
      some ⟨c.onReg fun r => { r with eHash1, eHash2 }, hmac, fun id => id = .authenticator⟩ := by
  simp [scanAttrs, bodyM3, parseM3, Parse.seen, Parse.onReg, WscCtrl.onReg]
  funext id
  cases id <;> rfl

section

variable (htx : c.regData.lastTx.Holds prev) (hprev : prev.length ≤ 1200) (hext : Extra ext)
  (version : Byte) (registrarNonce : Buf 16) (eHash1 eHash2 : Buf 32)

include htx hprev hext

theorem receiveM3_accepts (hmac : Buf 8) :
    let body := bodyM3 version registrarNonce eHash1 eHash2 ++ ext
    let msg := encodeAll (authenticated crypt c.regData.authKey prev body)
    ∃ m c', m.Holds msg ∧ c' = (c.onReg fun r => { r with lastRx := m, eHash1, eHash2 }) ∧
      receiveFrom mandatoryM3 parseM3 hmac msg c =
        some ⟨c', authenticatorOf crypt c.regData.authKey prev body, fun _ => false⟩ ∧
      checkMessage crypt ⟨c', authenticatorOf crypt c.regData.authKey prev body, fun _ => false⟩ =
        some (.noError, c') :=
  accepts_authenticated crypt mandatoryM3 parseM3 htx
    hprev (P := fun m c' => c' = c.onReg fun r => { r with lastRx := m, eHash1, eHash2 })
    (fun _ _ _ => rfl) (parseAuthenticator_last hmac) hext (by simp)
    (fun m rest => ⟨_, rfl, scanAttrs_bodyM3 version registrarNonce eHash1 eHash2 _ _ _⟩)
    (fun m c' hc' => hc' ▸ ⟨rfl, rfl, rfl⟩)

theorem processMessageM3_accepts :
    let msg := encodeAll (authenticated crypt c.regData.authKey prev
      (bodyM3 version registrarNonce eHash1 eHash2 ++ ext))
    ∃ m, m.Holds msg ∧ processMessageM3 crypt msg c =
      some (.noError, c.onReg fun r => { r with lastRx := m, eHash1, eHash2 }) := by
  obtain ⟨m, c', hm, rfl, hreceive, hcheck⟩ := receiveM3_accepts crypt htx hprev hext version
    registrarNonce eHash1 eHash2 noHmac
  refine ⟨m, hm, ?_⟩
  rw [← hcheck, processMessageM3, receive_eq, hreceive]
  rfl

end

/-! ## Encrypted settings -/

def settingsAttr (keyWrapKey iv : Buf 16) (plain : List Attr) : Attr :=
  ⟨WscId.encrSettings.type,
    iv.bytes ++ aesCbcEncrypt (crypt.rtAesEncrypt keyWrapKey) (encodeAll plain) iv⟩

@[simp] theorem settingsAttr_type (keyWrapKey iv : Buf 16) (plain : List Attr) :
    (settingsAttr crypt keyWrapKey iv plain).type = WscId.encrSettings.type := rfl

@[simp] theorem length_settingsAttr (keyWrapKey iv : Buf 16) (plain : List Attr) :
    (settingsAttr crypt keyWrapKey iv plain).value.length =
      (encodeAll plain).length / 16 * 16 + 32 := by
  simp [settingsAttr, length_aesCbcEncrypt]
  omega

theorem decryptSettings_encrypt (c : WscCtrl) {plain : List Attr}
    (hsize : (encodeAll plain).length ≤ 1000) (iv : Buf 16) (rest : List Byte) :
    ∃ ap rest', ap.bytes = encodeAll plain ++ rest' ∧
      decryptSettings crypt (settingsAttr crypt c.regData.keyWrapKey iv plain).value.length
        ((settingsAttr crypt c.regData.keyWrapKey iv plain).value ++ rest) c =
        some (c.onReg fun r => { r with apEncrSettings := ap },
          ((encodeAll plain).length : Int)) := by
  have hfit : (encodeAll plain).length / 16 * 16 + 16 ≤ 1024 := by omega
  obtain ⟨ap, rest', hdecrypt, hap⟩ := aesCbcDecrypt_encrypt
    (crypt.rtAesEncrypt c.regData.keyWrapKey) (crypt.rtAesDecrypt c.regData.keyWrapKey)
    (crypt.decrypt_encrypt c.regData.keyWrapKey) hfit iv c.regData.apEncrSettings
  have hsplit : splitIv (settingsAttr crypt c.regData.keyWrapKey iv plain).value = some (iv,
      aesCbcEncrypt (crypt.rtAesEncrypt c.regData.keyWrapKey) (encodeAll plain) iv) := by
    have hdrop : (settingsAttr crypt c.regData.keyWrapKey iv plain).value.drop 16 =
        aesCbcEncrypt (crypt.rtAesEncrypt c.regData.keyWrapKey) (encodeAll plain) iv :=
      drop_left' iv.size
    rw [splitIv, dif_pos (by simp), hdrop]
    exact congrArg (fun iv => some (iv, _)) (firstBlock_append iv _ _)
  refine ⟨ap, rest', hap, ?_⟩
  rw [decryptSettings, readBytes_append]
  simp [hsplit, hdecrypt]

theorem wscParseEncrSettings_encodeAll {plain : List Attr}
    (hap : c.regData.apEncrSettings.bytes = encodeAll plain ++ rest)
    (hsize : (encodeAll plain).length ≤ 1000) (hlast : ∀ a ∈ plain.getLast?, a.value ≠ []) :
    wscParseEncrSettings (encodeAll plain).length c =
      scanAttrs (dispatch parseSetting) rest plain c := by
  rw [wscParseEncrSettings, hap]
  exact scan_encode (fits_of_length (lt_of_le_of_lt hsize (by decide))) hlast rest c

/-- The settings in M4 to M6: a nonce, and the authenticator of the settings. -/
def nonceSettings (id : WscId) (snonce : Buf 16) (keyWrapAuth : Buf 8) : List Attr :=
  [⟨id.type, snonce.bytes⟩, ⟨WscId.keyWrapAuth.type, keyWrapAuth.bytes⟩]

@[simp] theorem length_nonceSettings (id : WscId) (snonce : Buf 16) (keyWrapAuth : Buf 8) :
    (encodeAll (nonceSettings id snonce keyWrapAuth)).length = 32 := by
  simp [nonceSettings]

@[simp] theorem parseSetting_keyWrapAuth (b : Buf 8) (rest : List Byte) (c : WscCtrl) :
    parseSetting .keyWrapAuth 8 (b.bytes ++ rest) c = some c := by
  simp [parseSetting]

theorem parseSetting_eSnonce1 (es1 : Buf 16) (c : WscCtrl) (rest : List Byte) :
    parseSetting .eSnonce1 16 (es1.bytes ++ rest) c =
      some (c.onReg fun r => { r with es1 }) := by
  simp [parseSetting]

theorem parseSetting_eSnonce2 (es2 : Buf 16) (c : WscCtrl) (rest : List Byte) :
    parseSetting .eSnonce2 16 (es2.bytes ++ rest) c =
      some (c.onReg fun r => { r with es2 }) := by
  simp [parseSetting]

theorem parseSetting_rSnonce1 (rs1 : Buf 16) (c : WscCtrl) (rest : List Byte) :
    parseSetting .rSnonce1 16 (rs1.bytes ++ rest) c =
      some (c.onReg fun r => { r with rs1 }) := by
  simp [parseSetting]

theorem parseSetting_rSnonce2 (rs2 : Buf 16) (c : WscCtrl) (rest : List Byte) :
    parseSetting .rSnonce2 16 (rs2.bytes ++ rest) c =
      some (c.onReg fun r => { r with rs2 }) := by
  simp [parseSetting]

theorem parseEncrSettings_nonce {set : WscRegData → WscRegData} {snonce : Buf 16}
    (hset : ∀ c rest, parseSetting id 16 (snonce.bytes ++ rest) c = some (c.onReg set))
    (keyWrapAuth : Buf 8) (iv : Buf 16) (s : Parse) (rest : List Byte) :
    let value := (settingsAttr crypt s.ctrl.regData.keyWrapKey iv
      (nonceSettings id snonce keyWrapAuth)).value
    ∃ ap, parseEncrSettings crypt value.length (value ++ rest) s =
      some ({ s with ctrl := s.ctrl.onReg fun r => set { r with apEncrSettings := ap } }.seen
        .encrSettings) := by
  intro value
  have hlen : value.length = 64 := by simp [value]
  have hplain : (encodeAll (nonceSettings id snonce keyWrapAuth)).length ≤ 1000 := by simp
  obtain ⟨ap, rest', hap, hdecrypt⟩ := decryptSettings_encrypt crypt s.ctrl hplain iv rest
  have hlast : ∀ a ∈ (nonceSettings id snonce keyWrapAuth).getLast?, a.value ≠ [] := by
    intro a ha
    simp [nonceSettings] at ha
    subst ha
    exact ne_nil_of_length_pos (by simp)
  have hwalk := wscParseEncrSettings_encodeAll
    (c := s.ctrl.onReg fun r => { r with apEncrSettings := ap }) hap hplain hlast
  have hscan : scanAttrs (dispatch parseSetting) rest' (nonceSettings id snonce keyWrapAuth)
      (s.ctrl.onReg fun r => { r with apEncrSettings := ap }) =
      some (s.ctrl.onReg fun r => set { r with apEncrSettings := ap }) := by
    simp [nonceSettings, scanAttrs, hset]
    rfl
  refine ⟨ap, ?_⟩
  rw [parseEncrSettings, if_neg (by omega), hdecrypt]
  simp only [bind, Option.bind, Int.toNat_natCast, hwalk, hscan]

/-- The bits of M4 to M6 before the settings. -/
def settingsAndAuthenticator (id : WscId) : Bool := id = .encrSettings ∨ id = .authenticator

theorem scanAttrs_settings
    (hencr : ∀ len p s, handle .encrSettings len p s = parseEncrSettings crypt len p s)
    {front : List Attr} {s : Parse} {hmac : Buf 8}
    (hfront : ∀ rest, scanAttrs (dispatch handle) rest front s =
      some ⟨c, hmac, settingsAndAuthenticator⟩)
    {set : WscRegData → WscRegData} {snonce : Buf 16}
    (hset : ∀ c rest, parseSetting id 16 (snonce.bytes ++ rest) c = some (c.onReg set))
    (keyWrapAuth : Buf 8) (iv : Buf 16) (rest : List Byte) :
    ∃ ap, scanAttrs (dispatch handle) rest (front ++ [settingsAttr crypt c.regData.keyWrapKey iv
        (nonceSettings id snonce keyWrapAuth)]) s =
      some ⟨c.onReg fun r => set { r with apEncrSettings := ap }, hmac,
        fun id => id = .authenticator⟩ := by
  obtain ⟨ap, hsettings⟩ := parseEncrSettings_nonce crypt hset keyWrapAuth iv
    ⟨c, hmac, settingsAndAuthenticator⟩ rest
  refine ⟨ap, ?_⟩
  have hseen : toggle settingsAndAuthenticator .encrSettings =
      fun id => decide (id = .authenticator) := by
    funext id
    cases id <;> rfl
  rw [scanAttrs_append, hfront]
  simp only [bind_some, scanAttrs, settingsAttr_type, dispatch_type, hencr, encodeAll_nil,
    nil_append, hsettings, Parse.seen, hseen]

/-- What the attributes of a message do to the data of the run leaves the messages and the keys as
    they are. -/
structure KeepsKeys (set : WscRegData → WscRegData) : Prop where
  lastTx : ∀ r, (set r).lastTx = r.lastTx
  lastRx : ∀ r, (set r).lastRx = r.lastRx
  authKey : ∀ r, (set r).authKey = r.authKey
  keyWrapKey : ∀ r, (set r).keyWrapKey = r.keyWrapKey

/-- **A message with a nonce in its settings** passes the check, whatever was in `Hmac`: M4 to M6
    are such messages. -/
theorem accepts_nonceSettings {mandatory : List WscId}
    (htx : c.regData.lastTx.Holds prev) (hprev : prev.length ≤ 1200)
    (hvendor : ∀ len p s, handle .vendorExt len p s = some s)
    (hauth : ∀ len p s, handle .authenticator len p s = parseAuthenticator len p s)
    (hencr : ∀ len p s, handle .encrSettings len p s = parseEncrSettings crypt len p s)
    (hext : Extra ext) (front : List Attr) (hsize : (encodeAll front).length ≤ 400)
    (set₁ set₂ : WscRegData → WscRegData) (hset₁ : KeepsKeys set₁) (hset₂ : KeepsKeys set₂)
    (hfront : ∀ (c : WscCtrl) (hmac : Buf 8) rest, scanAttrs (dispatch handle) rest front
      ⟨c, hmac, fun id => mandatory.contains id⟩ =
        some ⟨c.onReg set₁, hmac, settingsAndAuthenticator⟩)
    {snonce : Buf 16}
    (hnonce : ∀ c rest, parseSetting id 16 (snonce.bytes ++ rest) c = some (c.onReg set₂))
    (keyWrapAuth : Buf 8) (iv : Buf 16) (hmac : Buf 8) :
    let settings := settingsAttr crypt c.regData.keyWrapKey iv
      (nonceSettings id snonce keyWrapAuth)
    let a := authenticatorOf crypt c.regData.authKey prev (front ++ [settings] ++ ext)
    let msg := encodeAll (authenticated crypt c.regData.authKey prev (front ++ [settings] ++ ext))
    ∃ m ap, m.Holds msg ∧
      let c' := c.onReg fun r => set₂ { set₁ { r with lastRx := m } with apEncrSettings := ap }
      receiveFrom mandatory handle hmac msg c = some ⟨c', a, fun _ => false⟩ ∧
        checkMessage crypt ⟨c', a, fun _ => false⟩ = some (.noError, c') := by
  intro settings a msg
  have hbody : ∀ m rest, ∃ c',
      (∃ ap, c' = c.onReg fun r => set₂ { set₁ { r with lastRx := m } with apEncrSettings := ap }) ∧
      scanAttrs (dispatch handle) rest (front ++ [settings])
        ⟨c.onReg fun r => { r with lastRx := m }, hmac, fun id => mandatory.contains id⟩ =
        some ⟨c', hmac, fun id => id = .authenticator⟩ := by
    intro m rest
    obtain ⟨ap, hscan⟩ := scanAttrs_settings crypt hencr
      (hfront (c.onReg fun r => { r with lastRx := m }) hmac) hnonce keyWrapAuth iv rest
    rw [show ((c.onReg fun r => { r with lastRx := m }).onReg set₁).regData.keyWrapKey =
      c.regData.keyWrapKey from hset₁.keyWrapKey _] at hscan
    exact ⟨_, ⟨ap, rfl⟩, hscan⟩
  have hkeeps : ∀ m c',
      (∃ ap, c' = c.onReg fun r => set₂ { set₁ { r with lastRx := m } with apEncrSettings := ap }) →
      KeepsCheck c m c' := by
    rintro m c' ⟨ap, rfl⟩
    exact ⟨(hset₂.lastTx _).trans (hset₁.lastTx _), (hset₂.lastRx _).trans (hset₁.lastRx _),
      (hset₂.authKey _).trans (hset₁.authKey _)⟩
  obtain ⟨m, c', hm, ⟨ap, rfl⟩, hreceive, hcheck⟩ := accepts_authenticated crypt mandatory handle
    htx hprev hvendor
    (fun c a rest => (hauth _ _ _).trans (parseAuthenticator_last hmac c a rest)) hext
    (by simp [settings]; omega) hbody hkeeps
  exact ⟨m, ap, hm, hreceive, hcheck⟩

/-! ## M4 -/

def frontM4 (version : Byte) (enrolleeNonce : Buf 16) (rHash1 rHash2 : Buf 32) : List Attr :=
  [⟨WscId.version.type, [version]⟩,
    ⟨WscId.msgType.type, [0x08]⟩,
    ⟨WscId.enrolleeNonce.type, enrolleeNonce.bytes⟩,
    ⟨WscId.rHash1.type, rHash1.bytes⟩,
    ⟨WscId.rHash2.type, rHash2.bytes⟩]

theorem scanAttrs_frontM4 (version : Byte) (enrolleeNonce : Buf 16) (rHash1 rHash2 : Buf 32)
    (c : WscCtrl) (hmac : Buf 8) (rest : List Byte) :
    scanAttrs (dispatch (parseM4 crypt)) rest (frontM4 version enrolleeNonce rHash1 rHash2)
      ⟨c, hmac, fun id => mandatoryM4.contains id⟩ =
      some ⟨c.onReg fun r => { r with rHash1, rHash2 }, hmac, settingsAndAuthenticator⟩ := by
  simp [scanAttrs, frontM4, parseM4, Parse.seen, Parse.onReg, WscCtrl.onReg]
  funext id
  cases id <;> rfl

theorem processMessageM4_accepts (htx : c.regData.lastTx.Holds prev) (hprev : prev.length ≤ 1200)
    (hext : Extra ext) (version : Byte) (enrolleeNonce : Buf 16) {rHash1 : Buf 32} {rs1 : Buf 16}
    (hhash : rHash1 = c.regData.hashOf crypt rs1 c.regData.psk1) (rHash2 : Buf 32)
    (keyWrapAuth : Buf 8) (iv : Buf 16) :
    let settings := settingsAttr crypt c.regData.keyWrapKey iv
      (nonceSettings .rSnonce1 rs1 keyWrapAuth)
    let msg := encodeAll (authenticated crypt c.regData.authKey prev
      (frontM4 version enrolleeNonce rHash1 rHash2 ++ [settings] ++ ext))
    ∃ m ap, m.Holds msg ∧ processMessageM4 crypt msg c =
      some (.noError,
        c.onReg fun r => { r with lastRx := m, rHash1, rHash2, apEncrSettings := ap, rs1 }) := by
  intro settings msg
  obtain ⟨m, ap, hm, hreceive, hcheck⟩ := accepts_nonceSettings crypt htx hprev
    (fun _ _ _ => rfl) (fun _ _ _ => rfl) (fun _ _ _ => rfl) hext
    (frontM4 version enrolleeNonce rHash1 rHash2) (by simp [frontM4])
    (fun r => { r with rHash1, rHash2 }) (fun r => { r with rs1 })
    ⟨fun _ => rfl, fun _ => rfl, fun _ => rfl, fun _ => rfl⟩
    ⟨fun _ => rfl, fun _ => rfl, fun _ => rfl, fun _ => rfl⟩
    (scanAttrs_frontM4 crypt version enrolleeNonce rHash1 rHash2) (parseSetting_rSnonce1 rs1)
    keyWrapAuth iv noHmac
  refine ⟨m, ap, hm, ?_⟩
  rw [processMessageM4, receive_eq, hreceive]
  exact (if_neg (not_not_intro hhash)).trans hcheck

/-! ## M5 and M6 -/

/-- The attributes of M5 to M8 before the settings. -/
def frontEncr (version msgType : Byte) (nonceId : WscId) (nonce : Buf 16) : List Attr :=
  [⟨WscId.version.type, [version]⟩,
    ⟨WscId.msgType.type, [msgType]⟩,
    ⟨nonceId.type, nonce.bytes⟩]

theorem scanAttrs_frontM5 (version : Byte) (registrarNonce : Buf 16) (c : WscCtrl) (hmac : Buf 8)
    (rest : List Byte) : scanAttrs (dispatch (parseM5 crypt)) rest
      (frontEncr version 0x09 .registrarNonce registrarNonce)
      ⟨c, hmac, fun id => mandatoryM5.contains id⟩ =
      some ⟨c, hmac, settingsAndAuthenticator⟩ := by
  simp [scanAttrs, frontEncr, parseM5, Parse.seen]
  funext id
  cases id <;> rfl

theorem receiveM5_accepts (htx : c.regData.lastTx.Holds prev) (hprev : prev.length ≤ 1200)
    (hext : Extra ext) (version : Byte) (registrarNonce es1 : Buf 16) (keyWrapAuth : Buf 8)
    (iv : Buf 16) (hmac : Buf 8) :
    let settings := settingsAttr crypt c.regData.keyWrapKey iv
      (nonceSettings .eSnonce1 es1 keyWrapAuth)
    let body := frontEncr version 0x09 .registrarNonce registrarNonce ++ [settings] ++ ext
    let a := authenticatorOf crypt c.regData.authKey prev body
    let msg := encodeAll (authenticated crypt c.regData.authKey prev body)
    ∃ m ap, m.Holds msg ∧
      let c' := c.onReg fun r => { r with lastRx := m, apEncrSettings := ap, es1 }
      receiveFrom mandatoryM5 (parseM5 crypt) hmac msg c = some ⟨c', a, fun _ => false⟩ ∧
        checkMessage crypt ⟨c', a, fun _ => false⟩ = some (.noError, c') :=
  accepts_nonceSettings crypt htx hprev (fun _ _ _ => rfl) (fun _ _ _ => rfl) (fun _ _ _ => rfl)
    hext (frontEncr version 0x09 .registrarNonce registrarNonce) (by simp [frontEncr])
    (fun r => r) (fun r => { r with es1 })
    ⟨fun _ => rfl, fun _ => rfl, fun _ => rfl, fun _ => rfl⟩
    ⟨fun _ => rfl, fun _ => rfl, fun _ => rfl, fun _ => rfl⟩
    (scanAttrs_frontM5 crypt version registrarNonce) (parseSetting_eSnonce1 es1) keyWrapAuth iv hmac

theorem processMessageM5_accepts (htx : c.regData.lastTx.Holds prev) (hprev : prev.length ≤ 1200)
    (hext : Extra ext) (version : Byte) (registrarNonce : Buf 16) {es1 : Buf 16}
    (hhash : c.regData.eHash1 = c.regData.hashOf crypt es1 c.regData.psk1) (keyWrapAuth : Buf 8)
    (iv : Buf 16) :
    let settings := settingsAttr crypt c.regData.keyWrapKey iv
      (nonceSettings .eSnonce1 es1 keyWrapAuth)
    let msg := encodeAll (authenticated crypt c.regData.authKey prev
      (frontEncr version 0x09 .registrarNonce registrarNonce ++ [settings] ++ ext))
    ∃ m ap, m.Holds msg ∧ processMessageM5 crypt msg c =
      some (.noError, c.onReg fun r => { r with lastRx := m, apEncrSettings := ap, es1 }) := by
  intro settings msg
  obtain ⟨m, ap, hm, hreceive, hcheck⟩ := receiveM5_accepts crypt htx hprev hext version
    registrarNonce es1 keyWrapAuth iv noHmac
  refine ⟨m, ap, hm, ?_⟩
  rw [processMessageM5, receive_eq, hreceive]
  show (checkMessage crypt _).bind _ = _
  rw [hcheck]
  exact if_neg (not_not_intro hhash)

theorem scanAttrs_frontM6 (version : Byte) (enrolleeNonce : Buf 16) (c : WscCtrl) (hmac : Buf 8)
    (rest : List Byte) :
    scanAttrs (dispatch (parseM6 crypt)) rest (frontEncr version 0x0A .enrolleeNonce enrolleeNonce)
      ⟨c, hmac, fun id => mandatoryM6.contains id⟩ =
      some ⟨c, hmac, settingsAndAuthenticator⟩ := by
  simp [scanAttrs, frontEncr, parseM6, Parse.seen]
  funext id
  cases id <;> rfl

theorem processMessageM6_accepts (htx : c.regData.lastTx.Holds prev) (hprev : prev.length ≤ 1200)
    (hext : Extra ext) (version : Byte) (enrolleeNonce : Buf 16) {rs2 : Buf 16}
    (hhash : c.regData.rHash2 = c.regData.hashOf crypt rs2 c.regData.psk2) (keyWrapAuth : Buf 8)
    (iv : Buf 16) :
    let settings := settingsAttr crypt c.regData.keyWrapKey iv
      (nonceSettings .rSnonce2 rs2 keyWrapAuth)
    let msg := encodeAll (authenticated crypt c.regData.authKey prev
      (frontEncr version 0x0A .enrolleeNonce enrolleeNonce ++ [settings] ++ ext))
    ∃ m ap, m.Holds msg ∧ processMessageM6 crypt msg c =
      some (.noError, c.onReg fun r => { r with lastRx := m, apEncrSettings := ap, rs2 }) := by
  intro settings msg
  obtain ⟨m, ap, hm, hreceive, hcheck⟩ := accepts_nonceSettings crypt htx hprev
    (fun _ _ _ => rfl) (fun _ _ _ => rfl) (fun _ _ _ => rfl) hext
    (frontEncr version 0x0A .enrolleeNonce enrolleeNonce) (by simp [frontEncr])
    (fun r => r) (fun r => { r with rs2 })
    ⟨fun _ => rfl, fun _ => rfl, fun _ => rfl, fun _ => rfl⟩
    ⟨fun _ => rfl, fun _ => rfl, fun _ => rfl, fun _ => rfl⟩
    (scanAttrs_frontM6 crypt version enrolleeNonce) (parseSetting_rSnonce2 rs2) keyWrapAuth iv noHmac
  refine ⟨m, ap, hm, ?_⟩
  rw [processMessageM6, receive_eq, hreceive]
  exact (if_neg (not_not_intro hhash)).trans hcheck

/-! ## M7 -/

/-- A setting of an access point, whose value fits its field. -/
inductive IsSetting : Attr → Prop where
  | ssid {v : List Byte} (h : v.length ≤ 32) : IsSetting ⟨WscId.ssid.type, v⟩
  | macAddr (mac : Buf 6) : IsSetting ⟨WscId.macAddr.type, mac.bytes⟩
  | authType (x : BitVec 16) : IsSetting ⟨WscId.authType.type, be16 x⟩
  | encrType (x : BitVec 16) : IsSetting ⟨WscId.encrType.type, be16 x⟩
  | nwKeyIndex (x : Byte) : IsSetting ⟨WscId.nwKeyIndex.type, [x]⟩
  | nwKey {v : List Byte} (h : v.length ≤ 64) : IsSetting ⟨WscId.nwKey.type, v⟩

theorem ssidLen_append (v rest : List Byte) :
    ssidLen (v ++ rest) v.length = some (v.takeWhile (· ≠ 0)).length := by
  simp [ssidLen]

theorem exists_load_takeWhile (field : Buf n) {v : List Byte} (h : v.length ≤ n)
    (rest : List Byte) :
    ∃ field', load field (v ++ rest) (v.takeWhile (· ≠ 0)).length = some field' := by
  have hsplit : v ++ rest = v.takeWhile (· ≠ 0) ++ (v.dropWhile (· ≠ 0) ++ rest) := by
    rw [← append_assoc, takeWhile_append_dropWhile]
  rw [hsplit]
  exact exists_load field (le_trans (takeWhile_sublist _).length_le h) _

theorem parseStaSetting_setting {a : Attr} (ha : IsSetting a) (rest : List Byte) (c : WscCtrl) :
    ∃ p, dispatch parseStaSetting a.type a.value.length (a.value ++ rest) c =
      some (c.setM7Profile p) := by
  cases ha with
  | @ssid v h =>
    obtain ⟨ssid, hload⟩ := exists_load_takeWhile c.wscM7Profile.first.ssid h rest
    refine ⟨{ c.wscM7Profile.setFirst { c.wscM7Profile.first with
      ssidLength := (v.takeWhile (· ≠ 0)).length, ssid } with profileCnt := 1 }, ?_⟩
    simp only [dispatch_type, parseStaSetting, ssidLen_append, bind, bind_some, hload]
    rfl
  | macAddr mac => exact ⟨_, by simp [parseStaSetting]; rfl⟩
  | authType x => exact ⟨_, by simp [parseStaSetting, be16, readBe16]; rfl⟩
  | encrType x => exact ⟨_, by simp [parseStaSetting, be16, readBe16]; rfl⟩
  | nwKeyIndex x => exact ⟨_, by simp [parseStaSetting]; rfl⟩
  | @nwKey v h =>
    obtain ⟨key, hload⟩ := exists_load c.wscM7Profile.first.key h rest
    by_cases hv : v.length = 0
    · refine ⟨c.wscM7Profile, ?_⟩
      simp only [dispatch_type, parseStaSetting, if_pos hv]
      rfl
    · refine ⟨c.wscM7Profile.setFirst { c.wscM7Profile.first with
        keyLength := v.length, key }, ?_⟩
      simp only [dispatch_type, parseStaSetting, if_neg hv, bind, bind_some, hload]
      rfl

theorem parseSetting_setting {a : Attr} (ha : IsSetting a) (rest : List Byte) (c : WscCtrl) :
    ∃ p, dispatch parseSetting a.type a.value.length (a.value ++ rest) c =
      some (c.setM7Profile p) := by
  have hparse : dispatch parseSetting a.type a.value.length (a.value ++ rest) c =
      if c.opMode = .staMode then
        dispatch parseStaSetting a.type a.value.length (a.value ++ rest) c
      else some c := by
    cases ha <;> simp [parseSetting]
  rw [hparse]
  split
  · exact parseStaSetting_setting ha rest c
  · exact ⟨c.wscM7Profile, rfl⟩

variable {settings : List Attr}

theorem scanAttrs_settingList (hsettings : ∀ a ∈ settings, IsSetting a)
    (rest : List Byte) (c : WscCtrl) : ∃ p, scanAttrs (dispatch parseSetting) rest settings c =
      some (c.setM7Profile p) := by
  induction settings generalizing c with
  | nil => exact ⟨c.wscM7Profile, rfl⟩
  | cons a as ih =>
    obtain ⟨p, hp⟩ := parseSetting_setting (hsettings a mem_cons_self)
      (encodeAll as ++ rest) c
    obtain ⟨q, hq⟩ := ih (fun b hb => hsettings b (mem_cons_of_mem a hb))
      (c.setM7Profile p)
    refine ⟨q, ?_⟩
    rw [scanAttrs, hp, bind_some, hq]
    rfl

/-- The settings in M7: the second nonce, the settings of an access point, and the authenticator
    of the settings. -/
def settingsM7 (es2 : Buf 16) (settings : List Attr) (keyWrapAuth : Buf 8) : List Attr :=
  ⟨WscId.eSnonce2.type, es2.bytes⟩ ::
    (settings ++ [⟨WscId.keyWrapAuth.type, keyWrapAuth.bytes⟩])

theorem parseM7_settings (es2 : Buf 16)
    (hsettings : ∀ a ∈ settings, IsSetting a) (hsize : (encodeAll settings).length ≤ 140)
    (keyWrapAuth : Buf 8) (iv : Buf 16) (s : Parse) (rest : List Byte) :
    let value := (settingsAttr crypt s.ctrl.regData.keyWrapKey iv
      (settingsM7 es2 settings keyWrapAuth)).value
    ∃ ap p, parseM7 crypt .encrSettings value.length (value ++ rest) s =
      some { s with ctrl := (s.ctrl.setM7Profile p).onReg fun r =>
        { r with apEncrSettings := ap, es2 } } := by
  intro value
  have hplain : (encodeAll (settingsM7 es2 settings keyWrapAuth)).length ≤ 1000 := by
    simp [settingsM7]
    omega
  have hlen : 32 ≤ value.length ∧ value.length ≤ 204 := by
    simp [value, settingsM7]
    omega
  obtain ⟨ap, rest', hap, hdecrypt⟩ := decryptSettings_encrypt crypt s.ctrl hplain iv rest
  have hlast : ∀ a ∈ (settingsM7 es2 settings keyWrapAuth).getLast?, a.value ≠ [] := by
    intro a ha
    simp [settingsM7, getLast?_cons] at ha
    subst ha
    exact ne_nil_of_length_pos (by simp)
  -- a station starts with an empty profile
  let c : WscCtrl := s.ctrl.onReg fun r => { r with apEncrSettings := ap }
  let c₀ : WscCtrl := if c.opMode = .staMode then (c.setM7Profile zeroProfile) else c
  obtain ⟨p₀, hc₀⟩ : ∃ p₀, c₀ = (c.setM7Profile p₀) := by
    by_cases hmode : c.opMode = .staMode
    · exact ⟨zeroProfile, if_pos hmode⟩
    · exact ⟨c.wscM7Profile, if_neg hmode⟩
  obtain ⟨p, hp⟩ := scanAttrs_settingList hsettings (encodeAll
    [⟨WscId.keyWrapAuth.type, keyWrapAuth.bytes⟩] ++ rest') (c₀.onReg fun r => { r with es2 })
  have hscan : scanAttrs (dispatch parseSetting) rest' (settingsM7 es2 settings keyWrapAuth) c₀ =
      some ((s.ctrl.setM7Profile p).onReg fun r =>
        { r with apEncrSettings := ap, es2 }) := by
    rw [settingsM7, scanAttrs, dispatch_type, Buf.size, parseSetting_eSnonce2, bind_some,
      scanAttrs_append, hp, hc₀]
    simp [scanAttrs]
    rfl
  have hap₀ : c₀.regData.apEncrSettings.bytes =
      encodeAll (settingsM7 es2 settings keyWrapAuth) ++ rest' := by
    rw [hc₀]
    exact hap
  have hwalk := wscParseEncrSettings_encodeAll hap₀ hplain hlast
  refine ⟨ap, p, ?_⟩
  rw [hscan] at hwalk
  show (if value.length ≤ 16 ∨ 1024 < value.length then some s else _) = _
  rw [if_neg (by omega), hdecrypt]
  simp only [bind, bind_some, Int.toNat_natCast]
  rw [show (if c.opMode = .staMode then (c.setM7Profile zeroProfile) else c) = c₀ from rfl,
    hwalk, bind_some]

section

variable (htx : c.regData.lastTx.Holds prev) (hprev : prev.length ≤ 1200) (hext : Extra ext)
  (version : Byte) (registrarNonce es2 : Buf 16) (hsettings : ∀ a ∈ settings, IsSetting a)
  (hsize : (encodeAll settings).length ≤ 140) (keyWrapAuth : Buf 8) (iv : Buf 16)

include htx hprev hext hsettings hsize

theorem receiveM7_accepts (hmac : Buf 8) :
    let encr := settingsAttr crypt c.regData.keyWrapKey iv (settingsM7 es2 settings keyWrapAuth)
    let body := frontEncr version 0x0B .registrarNonce registrarNonce ++ [encr] ++ ext
    let a := authenticatorOf crypt c.regData.authKey prev body
    let msg := encodeAll (authenticated crypt c.regData.authKey prev body)
    ∃ m c', m.Holds msg ∧ (∃ ap p, c' = (c.setM7Profile p).onReg fun r =>
        { r with lastRx := m, apEncrSettings := ap, es2 }) ∧
      receiveFrom [] (parseM7 crypt) hmac msg c = some ⟨c', a, fun _ => false⟩ ∧
        checkMessage crypt ⟨c', a, fun _ => false⟩ = some (.noError, c') := by
  intro encr body a msg
  have hlen : encr.value.length ≤ 204 := by
    simp [encr, settingsM7]
    omega
  have hbody : ∀ m rest, ∃ c', (∃ ap p, c' = (c.setM7Profile p).onReg fun r =>
        { r with lastRx := m, apEncrSettings := ap, es2 }) ∧
      scanAttrs (dispatch (parseM7 crypt)) rest
        (frontEncr version 0x0B .registrarNonce registrarNonce ++ [encr])
        ⟨c.onReg fun r => { r with lastRx := m }, hmac, fun id => [].contains id⟩ =
        some ⟨c', hmac, fun _ => false⟩ := by
    intro m rest
    obtain ⟨ap, p, hparse⟩ := parseM7_settings crypt es2 hsettings hsize keyWrapAuth iv
      ⟨c.onReg fun r => { r with lastRx := m }, hmac, fun _ => false⟩ rest
    refine ⟨_, ⟨ap, p, rfl⟩, ?_⟩
    rw [scanAttrs_append]
    simp [scanAttrs, frontEncr, parseM7]
    exact hparse
  exact accepts_authenticated crypt [] (parseM7 crypt) htx hprev (fun _ _ _ => rfl)
    (fun c a rest => by simp [parseM7]) hext (by simp [frontEncr]; omega) hbody
    (by rintro m c' ⟨ap, p, rfl⟩; exact ⟨rfl, rfl, rfl⟩)

theorem processMessageM7_accepts :
    let encr := settingsAttr crypt c.regData.keyWrapKey iv (settingsM7 es2 settings keyWrapAuth)
    let msg := encodeAll (authenticated crypt c.regData.authKey prev
      (frontEncr version 0x0B .registrarNonce registrarNonce ++ [encr] ++ ext))
    ∃ m ap p, m.Holds msg ∧ processMessageM7 crypt msg c =
      some (.noError, (c.setM7Profile p).onReg fun r =>
        { r with lastRx := m, apEncrSettings := ap, es2 }) := by
  intro encr msg
  obtain ⟨m, c', hm, ⟨ap, p, rfl⟩, hreceive, hcheck⟩ := receiveM7_accepts crypt htx hprev hext
    version registrarNonce es2 hsettings hsize keyWrapAuth iv noHmac
  refine ⟨m, ap, p, hm, ?_⟩
  rw [← hcheck, processMessageM7, receive_eq, hreceive]
  rfl

end

/-! ## M8 -/

/-- The characters that `RTMPCheckStrPrintAble` accepts. -/
def Printable (str : List Byte) : Prop := ∀ ch ∈ str, 0x20#8 ≤ ch ∧ ch ≤ 0x7E#8

instance (str : List Byte) : Decidable (Printable str) :=
  inferInstanceAs (Decidable (∀ ch ∈ str, 0x20#8 ≤ ch ∧ ch ≤ 0x7E#8))

theorem rtmpCheckStrPrintAble_iff {str : List Byte} (hlen : str.length < 256)
    (rest : List Byte) : rtmpCheckStrPrintAble (str ++ rest) str.length = true ↔ Printable str := by
  simp only [rtmpCheckStrPrintAble, Nat.mod_eq_of_lt hlen, take_left, List.all_eq_true,
    Bool.and_eq_true, decide_eq_true_eq]
  rfl

theorem onCurrent_first (p : WscProfile) (f : WscCredential → Option WscCredential) :
    (⟨p, 1, 0⟩ : CredentialParse).onCurrent f =
      (f p.first).map fun cred => ⟨p.setFirst cred, 1, 0⟩ := by
  show (if h : 0 < 8 then _ else _) = _
  rw [dif_pos (by decide), map_eq_bind]
  rfl

@[simp] theorem dispatchStop_type {σ : Type}
    (handle : WscId → Nat → List Byte → σ → Option (Verdict σ σ)) (id : WscId) (wscLen : Nat)
    (pData : List Byte) (s : σ) :
    dispatchStop handle id.type wscLen pData s = handle id wscLen pData s := by
  simp [dispatchStop]

def credentialList (ssid : List Byte) (authType encrType : BitVec 16) (keyIndex : Byte)
    (key : List Byte) (mac : Buf 6) : List Attr :=
  [⟨WscId.nwIndex.type, [0x31]⟩,
    ⟨WscId.ssid.type, ssid⟩,
    ⟨WscId.authType.type, be16 authType⟩,
    ⟨WscId.encrType.type, be16 encrType⟩,
    ⟨WscId.nwKeyIndex.type, [keyIndex]⟩,
    ⟨WscId.nwKey.type, key⟩,
    ⟨WscId.macAddr.type, mac.bytes⟩]

/-- A credential has these values; its fields begin with the SSID and the key. -/
structure WscCredential.Holds (cred : WscCredential) (ssid : List Byte)
    (authType encrType : BitVec 16) (keyIndex : Byte) (key : List Byte) (mac : Buf 6) : Prop where
  ssidLength : cred.ssidLength = ssid.length
  ssid : cred.ssid.bytes.take ssid.length = ssid
  authType : cred.authType = authType
  encrType : cred.encrType = encrType
  keyIndex : cred.keyIndex = keyIndex
  keyLength : cred.keyLength = key.length
  key : cred.key.bytes.take key.length = key
  macAddr : cred.macAddr = mac

theorem parseCredential_ssid {b : Bool} {v : List Byte} (hlen : v.length ≤ 32)
    (hprint : b = true → Printable (v.takeWhile (· ≠ 0))) (rest : List Byte) (p : WscProfile) :
    ∃ ssid, ssid.bytes.take (v.takeWhile (· ≠ 0)).length = v.takeWhile (· ≠ 0) ∧
      parseCredential b .ssid v.length (v ++ rest) ⟨p, 1, 0⟩ =
        some (.next v.length ⟨p.setFirst { p.first with
          ssidLength := (v.takeWhile (· ≠ 0)).length, ssid }, 1, 0⟩) := by
  have hsplit : v ++ rest = v.takeWhile (· ≠ 0) ++ (v.dropWhile (· ≠ 0) ++ rest) := by
    rw [← append_assoc, takeWhile_append_dropWhile]
  have hshort : (v.takeWhile (· ≠ 0)).length ≤ 32 :=
    le_trans (takeWhile_sublist _).length_le hlen
  have hcheck : (rtmpCheckStrPrintAble (v ++ rest) (v.takeWhile (· ≠ 0)).length || ! b) = true := by
    cases b with
    | false => exact Bool.or_true _
    | true =>
      rw [hsplit, (rtmpCheckStrPrintAble_iff (by omega) _).mpr (hprint rfl), Bool.true_or]
  let p₁ := p.setFirst { p.first with ssidLength := (v.takeWhile (· ≠ 0)).length }
  obtain ⟨ssid, hload⟩ := exists_load_takeWhile p₁.first.ssid hlen rest
  refine ⟨ssid, take_of_load (hsplit ▸ hload), ?_⟩
  simp only [parseCredential, ssidLen_append, bind, bind_some, onCurrent_first,
    map_some, hcheck, if_true, p₁] at hload ⊢
  rw [WscProfile.first_setFirst] at hload
  simp only [WscProfile.first_setFirst, hload, bind_some, map_some, WscProfile.setFirst_setFirst]

theorem parseCredential_nwKey {b : Bool} {w : List Byte} (hlen : w.length ≤ 64)
    (hprint : b = true → Printable w) (rest : List Byte) {p : WscProfile}
    (hp : p.first.keyLength = 0) : ∃ key, key.bytes.take w.length = w ∧
      parseCredential b .nwKey w.length (w ++ rest) ⟨p, 1, 0⟩ =
        some (.next w.length ⟨p.setFirst { p.first with keyLength := w.length, key }, 1, 0⟩) := by
  by_cases hw : w.length = 0
  · obtain rfl := length_eq_zero_iff.mp hw
    refine ⟨p.first.key, take_zero, ?_⟩
    have hsame : { p.first with keyLength := 0, key := p.first.key } = p.first := by rw [← hp]
    rw [length_nil, hsame, WscProfile.setFirst_first]
    rfl
  · have hcheck : (rtmpCheckStrPrintAble (w ++ rest) w.length || ! b) = true := by
      cases b with
      | false => exact Bool.or_true _
      | true => rw [(rtmpCheckStrPrintAble_iff (by omega) _).mpr (hprint rfl), Bool.true_or]
    obtain ⟨key, hload⟩ := exists_load p.first.key hlen rest
    refine ⟨key, take_of_load hload, ?_⟩
    simp only [parseCredential, if_neg hw, hcheck, if_true, bind, bind_some,
      onCurrent_first, map_some, hload]

theorem parseCredential_authType (b : Bool) (authType : BitVec 16) (rest : List Byte)
    (p : WscProfile) :
    parseCredential b .authType (be16 authType).length (be16 authType ++ rest) ⟨p, 1, 0⟩ =
      some (.next (be16 authType).length ⟨p.setFirst { p.first with authType }, 1, 0⟩) := by
  simp [parseCredential, be16, readBe16, append_be16, onCurrent_first]

theorem parseCredential_encrType (b : Bool) (encrType : BitVec 16) (rest : List Byte)
    (p : WscProfile) :
    parseCredential b .encrType (be16 encrType).length (be16 encrType ++ rest) ⟨p, 1, 0⟩ =
      some (.next (be16 encrType).length ⟨p.setFirst { p.first with encrType }, 1, 0⟩) := by
  simp [parseCredential, be16, readBe16, append_be16, onCurrent_first]

theorem parseCredential_nwKeyIndex (b : Bool) (keyIndex : Byte) (rest : List Byte)
    (p : WscProfile) :
    parseCredential b .nwKeyIndex [keyIndex].length ([keyIndex] ++ rest) ⟨p, 1, 0⟩ =
      some (.next [keyIndex].length ⟨p.setFirst { p.first with keyIndex }, 1, 0⟩) := by
  simp [parseCredential, onCurrent_first]

theorem parseCredential_macAddr (b : Bool) (macAddr : Buf 6) (rest : List Byte) (p : WscProfile) :
    parseCredential b .macAddr macAddr.bytes.length (macAddr.bytes ++ rest) ⟨p, 1, 0⟩ =
      some (.next macAddr.bytes.length ⟨p.setFirst { p.first with macAddr }, 1, 0⟩) := by
  simp [parseCredential, onCurrent_first]

theorem walk_attr {σ : Type} {handle : WscId → Nat → List Byte → σ → Option (Verdict σ σ)}
    {u : List Byte} (hu : u.length ≤ 1000) {as : List Attr} (hlong : u ≠ [] ∨ as ≠ []) {s s' : σ}
    (hparse : handle id u.length (u ++ (encodeAll as ++ rest)) s = some (.next u.length s')) :
    walk (dispatchStop handle) (encodeAll (⟨id.type, u⟩ :: as)).length
      (encodeAll (⟨id.type, u⟩ :: as) ++ rest) s =
      walk (dispatchStop handle) (encodeAll as).length (encodeAll as ++ rest) s' :=
  walk_next (lt_of_le_of_lt hu (by decide)) hlong ((dispatchStop_type _ _ _ _ _).trans hparse)

variable {v w : List Byte}

/-- **The walk over a credential** fills the first profile. -/
theorem walk_credential {b : Bool} (hv : v.length ≤ 32)
    (hvprint : b = true → Printable (v.takeWhile (· ≠ 0))) (hw : w.length ≤ 64)
    (hwprint : b = true → Printable w) (authType encrType : BitVec 16) (keyIndex : Byte)
    (mac : Buf 6) (as : List Attr) (rest : List Byte) : ∃ cred : WscCredential,
      cred.Holds (v.takeWhile (· ≠ 0)) authType encrType keyIndex w mac ∧
      walk (dispatchStop (parseCredential b))
        (encodeAll (credentialList v authType encrType keyIndex w mac ++ as)).length
        (encodeAll (credentialList v authType encrType keyIndex w mac ++ as) ++ rest)
        ⟨zeroProfile, 0, 0⟩ =
      walk (dispatchStop (parseCredential b)) (encodeAll as).length (encodeAll as ++ rest)
        ⟨zeroProfile.setFirst cred, 1, 0⟩ := by
  have hbe : ∀ x : BitVec 16, (be16 x).length ≤ 1000 := fun x => by simp [be16]
  have hmac : mac.bytes ≠ [] := ne_nil_of_length_pos (by simp)
  simp only [credentialList, cons_append, nil_append]
  obtain ⟨ssid, hssid, h₁⟩ := parseCredential_ssid hv hvprint (encodeAll
    (⟨WscId.authType.type, be16 authType⟩ :: ⟨WscId.encrType.type, be16 encrType⟩ ::
      ⟨WscId.nwKeyIndex.type, [keyIndex]⟩ :: ⟨WscId.nwKey.type, w⟩ ::
      ⟨WscId.macAddr.type, mac.bytes⟩ :: as) ++ rest) zeroProfile
  let cred₁ : WscCredential :=
    { zeroProfile.first with ssidLength := (v.takeWhile (· ≠ 0)).length, ssid }
  let cred₂ : WscCredential := { cred₁ with authType, encrType, keyIndex }
  obtain ⟨key, hkey, h₅⟩ := parseCredential_nwKey hw hwprint
    (encodeAll (⟨WscId.macAddr.type, mac.bytes⟩ :: as) ++ rest)
    (p := zeroProfile.setFirst cred₂) (by rw [WscProfile.first_setFirst]; rfl)
  have h₀ : ∀ q, parseCredential b .nwIndex [(0x31 : Byte)].length q ⟨zeroProfile, 0, 0⟩ =
      some (.next [(0x31 : Byte)].length ⟨zeroProfile, 1, 0⟩) := fun _ => rfl
  have h₂ := fun rest => parseCredential_authType b authType rest (zeroProfile.setFirst cred₁)
  have h₃ := fun rest => parseCredential_encrType b encrType rest
    (zeroProfile.setFirst { cred₁ with authType })
  have h₄ := fun rest => parseCredential_nwKeyIndex b keyIndex rest
    (zeroProfile.setFirst { cred₁ with authType, encrType })
  have h₆ := fun rest => parseCredential_macAddr b mac rest
    (zeroProfile.setFirst { cred₂ with keyLength := w.length, key })
  simp only [WscProfile.first_setFirst, WscProfile.setFirst_setFirst] at h₂ h₃ h₄ h₅ h₆
  refine ⟨{ cred₂ with keyLength := w.length, key, macAddr := mac },
    ⟨rfl, hssid, rfl, rfl, rfl, rfl, hkey, rfl⟩, ?_⟩
  rw [walk_attr (by simp) (by simp) (h₀ _), walk_attr (by omega) (by simp) h₁,
    walk_attr (hbe _) (by simp) (h₂ _), walk_attr (hbe _) (by simp) (h₃ _),
    walk_attr (by simp) (by simp) (h₄ _), walk_attr (by omega) (by simp) h₅,
    walk_attr (by simp) (.inl hmac) (h₆ _)]

/-- The settings in M8: the credential, in an attribute of its own or not, and the authenticator
    of the settings. -/
def settingsM8 (wrapped : Bool) (cred : List Attr) (keyWrapAuth : Buf 8) : List Attr :=
  (if wrapped then [⟨WscId.credential.type, encodeAll cred⟩] else cred) ++
    [⟨WscId.keyWrapAuth.type, keyWrapAuth.bytes⟩]

theorem hasWep_first (p : WscProfile) :
    hasWep { p with profileCnt := 1 } = decide (p.first.encrType = 0x0002) := by
  rw [Bool.eq_iff_iff, hasWep, List.any_eq_true]
  simp only [mem_finRange, true_and, Bool.and_eq_true, decide_eq_true_eq, beq_iff_eq]
  constructor
  · rintro ⟨i, hi, hwep⟩
    have hzero : i = ⟨0, by decide⟩ := Fin.ext (Nat.lt_one_iff.mp hi)
    rw [hzero] at hwep
    exact hwep
  · intro hwep
    exact ⟨⟨0, by decide⟩, Nat.one_pos, hwep⟩

/-- The walk enters the attribute of the credential. -/
theorem walk_settingsM8_eq {b : Bool} (hv : v.length ≤ 32) (hw : w.length ≤ 64)
    (authType encrType : BitVec 16) (keyIndex : Byte) (mac : Buf 6) (wrapped : Bool)
    (keyWrapAuth : Buf 8) (rest : List Byte) :
    let list := credentialList v authType encrType keyIndex w mac
    walk (dispatchStop (parseCredential b)) (encodeAll (settingsM8 wrapped list keyWrapAuth)).length
      (encodeAll (settingsM8 wrapped list keyWrapAuth) ++ rest) ⟨zeroProfile, 0, 0⟩ =
    walk (dispatchStop (parseCredential b)) (encodeAll (settingsM8 false list keyWrapAuth)).length
      (encodeAll (settingsM8 false list keyWrapAuth) ++ rest) ⟨zeroProfile, 0, 0⟩ := by
  intro list
  cases wrapped with
  | false => rfl
  | true =>
    have hfit : Attr.Fits ⟨WscId.credential.type, encodeAll list⟩ := by
      simp [Attr.Fits, list, credentialList, be16]
      omega
    apply walk_enter hfit rfl (.inr (by simp))
    simp [parseCredential]

theorem walk_settingsM8 {b : Bool} (hv : v.length ≤ 32)
    (hvprint : b = true → Printable (v.takeWhile (· ≠ 0))) (hw : w.length ≤ 64)
    (hwprint : b = true → Printable w) (authType encrType : BitVec 16) (keyIndex : Byte)
    (mac : Buf 6) (wrapped : Bool) (keyWrapAuth : Buf 8) (rest : List Byte) :
    let settings := settingsM8 wrapped (credentialList v authType encrType keyIndex w mac)
      keyWrapAuth
    ∃ cred : WscCredential,
      cred.Holds (v.takeWhile (· ≠ 0)) authType encrType keyIndex w mac ∧
      walk (dispatchStop (parseCredential b)) (encodeAll settings).length
        (encodeAll settings ++ rest) ⟨zeroProfile, 0, 0⟩ =
        some (.inl ⟨zeroProfile.setFirst cred, 1, 0⟩) := by
  intro settings
  let tail : List Attr := [⟨WscId.keyWrapAuth.type, keyWrapAuth.bytes⟩]
  obtain ⟨cred, hcred, hwalk⟩ := walk_credential hv hvprint hw hwprint authType encrType keyIndex
    mac tail rest
  have htail : walk (dispatchStop (parseCredential b)) (encodeAll tail).length
      (encodeAll tail ++ rest) ⟨zeroProfile.setFirst cred, 1, 0⟩ =
      some (.inl ⟨zeroProfile.setFirst cred, 1, 0⟩) := by
    have hparse : ∀ q, parseCredential b .keyWrapAuth keyWrapAuth.bytes.length q
      ⟨zeroProfile.setFirst cred, 1, 0⟩ =
        some (.next keyWrapAuth.bytes.length ⟨zeroProfile.setFirst cred, 1, 0⟩) := fun _ => rfl
    rw [walk_attr (by simp) (.inl (ne_nil_of_length_pos (by simp))) (hparse _)]
    exact walk_stop (by simp) _ _
  refine ⟨cred, hcred, ?_⟩
  rw [walk_settingsM8_eq hv hw, ← htail, ← hwalk]
  rfl

/-- **The settings in M8**: `WscProcessCredential` takes the credential, unless it uses WEP and the
    device has version 2. -/
theorem wscProcessCredential_eq (hv : v.length ≤ 32)
    (hvprint : c.bCheckMultiByte = true → Printable (v.takeWhile (· ≠ 0))) (hw : w.length ≤ 64)
    (hwprint : c.bCheckMultiByte = true → Printable w) (authType encrType : BitVec 16)
    (keyIndex : Byte) (mac : Buf 6) (wrapped : Bool) (keyWrapAuth : Buf 8) :
    let settings := settingsM8 wrapped (credentialList v authType encrType keyIndex w mac)
      keyWrapAuth
    c.regData.apEncrSettings.bytes = encodeAll settings ++ rest →
    ∃ cred : WscCredential,
      cred.Holds (v.takeWhile (· ≠ 0)) authType encrType keyIndex w mac ∧
      wscProcessCredential (encodeAll settings).length c =
        some (if c.bEnableWpsV2 = true ∧ encrType = 0x0002 then (false, c.setProfile zeroProfile)
          else (true, c.setProfile { zeroProfile.setFirst cred with profileCnt := 1 })) := by
  intro settings hap
  obtain ⟨cred, hcred, hwalk⟩ := walk_settingsM8 hv hvprint hw hwprint authType encrType keyIndex
    mac wrapped keyWrapAuth rest
  refine ⟨cred, hcred, ?_⟩
  have hwep := hasWep_first (zeroProfile.setFirst cred)
  rw [WscProfile.first_setFirst, hcred.encrType] at hwep
  rw [wscProcessCredential, hap, hwalk]
  simp only [bind, bind_some, hwep]
  by_cases hv2 : c.bEnableWpsV2 = true
  · rw [if_neg (not_not_intro hv2), if_neg (by decide)]
    by_cases htype : encrType = 0x0002
    · rw [decide_eq_true htype, if_pos rfl, if_pos ⟨hv2, htype⟩]
    · rw [decide_eq_false htype, if_neg Bool.false_ne_true, if_neg fun h => htype h.2]
  · rw [if_pos hv2, if_neg fun h => hv2 h.1]

variable {encrType : BitVec 16}

theorem wscProcessCredential_accepts (hv : v.length ≤ 32)
    (hvprint : Printable (v.takeWhile (· ≠ 0))) (hw : w.length ≤ 64) (hwprint : Printable w)
    (authType : BitVec 16) (hwep : encrType ≠ 0x0002) (keyIndex : Byte)
    (mac : Buf 6) (wrapped : Bool) (keyWrapAuth : Buf 8)
    (hap : c.regData.apEncrSettings.bytes = encodeAll (settingsM8 wrapped
      (credentialList v authType encrType keyIndex w mac) keyWrapAuth) ++ rest) :
    ∃ p, wscProcessCredential (encodeAll (settingsM8 wrapped
      (credentialList v authType encrType keyIndex w mac) keyWrapAuth)).length c =
        some (true, (c.setProfile p)) := by
  obtain ⟨cred, -, hprocess⟩ := wscProcessCredential_eq hv (fun _ => hvprint) hw
    (fun _ => hwprint) authType encrType keyIndex mac wrapped keyWrapAuth hap
  rw [if_neg fun h => hwep h.2] at hprocess
  exact ⟨_, hprocess⟩

theorem walk_ignored {handle : WscId → Nat → List Byte → Parse → Option (Verdict Parse Parse)}
    (hvendor : ∀ len p s, handle .vendorExt len p s = some (.next len s)) {ext as : List Attr}
    (hext : Extra ext) (has : as ≠ []) (rest : List Byte) (s : Parse) :
    walk (dispatchStop handle) (encodeAll (ext ++ as)).length (encodeAll (ext ++ as) ++ rest) s =
      walk (dispatchStop handle) (encodeAll as).length (encodeAll as ++ rest) s := by
  have hfit := fits_of_length (lt_of_le_of_lt hext.length_le (by decide))
  have hextra := hext.isExtra
  clear hext
  induction ext with
  | nil => rfl
  | cons a ext ih =>
    have hnext : ∀ len p, dispatchStop handle a.type len p s = some (.next len s) := by
      intro len p
      obtain ⟨version2, rfl⟩ | hunknown := hextra a mem_cons_self
      · simp [hvendor]
      · simp [dispatchStop, hunknown]
    rw [cons_append, walk_next (hfit a mem_cons_self) (.inr (by simp [has])) (hnext _ _)]
    exact ih (fun b hb => hfit b (mem_cons_of_mem a hb))
      (fun b hb => hextra b (mem_cons_of_mem a hb))

theorem parseM8_settings (hv : v.length ≤ 32)
    (hvprint : Printable (v.takeWhile (· ≠ 0))) (hw : w.length ≤ 64) (hwprint : Printable w)
    (authType : BitVec 16) (hwep : encrType ≠ 0x0002) (keyIndex : Byte)
    (mac : Buf 6) (wrapped : Bool) (keyWrapAuth : Buf 8) (iv : Buf 16) (s : Parse)
    (rest : List Byte) :
    let value := (settingsAttr crypt s.ctrl.regData.keyWrapKey iv (settingsM8 wrapped
      (credentialList v authType encrType keyIndex w mac) keyWrapAuth)).value
    ∃ ap p, parseM8 crypt .encrSettings value.length (value ++ rest) s =
      some (.next value.length { s with ctrl := (s.ctrl.setProfile p).onReg fun r =>
        { r with apEncrSettings := ap } }) := by
  intro value
  have hplain : (encodeAll (settingsM8 wrapped
      (credentialList v authType encrType keyIndex w mac) keyWrapAuth)).length ≤ 152 := by
    cases wrapped <;> simp [settingsM8, credentialList, be16] <;> omega
  have hlen : 32 ≤ value.length ∧ value.length ≤ 184 := by
    simp [value]
    omega
  obtain ⟨ap, rest', hap, hdecrypt⟩ :=
    decryptSettings_encrypt crypt s.ctrl (le_trans hplain (by decide)) iv rest
  obtain ⟨p, hcred⟩ := wscProcessCredential_accepts
    (c := s.ctrl.onReg fun r => { r with apEncrSettings := ap }) hv hvprint hw hwprint authType
    hwep keyIndex mac wrapped keyWrapAuth hap
  refine ⟨ap, p, ?_⟩
  show (if value.length ≤ 16 ∨ 1024 < value.length then _ else _) = _
  rw [if_neg (by omega), hdecrypt]
  simp only [bind, bind_some, Int.toNat_natCast, hcred, if_true]
  rfl

theorem processMessageM8_accepts (htx : c.regData.lastTx.Holds prev) (hprev : prev.length ≤ 1200)
    (hext : Extra ext) (version : Byte) (enrolleeNonce : Buf 16)
    (hv : v.length ≤ 32) (hvprint : Printable (v.takeWhile (· ≠ 0))) (hw : w.length ≤ 64)
    (hwprint : Printable w) (authType : BitVec 16)
    (hwep : encrType ≠ 0x0002) (keyIndex : Byte) (mac : Buf 6) (wrapped : Bool)
    (keyWrapAuth : Buf 8) (iv : Buf 16) (hmac : Buf 8) :
    let encr := settingsAttr crypt c.regData.keyWrapKey iv (settingsM8 wrapped
      (credentialList v authType encrType keyIndex w mac) keyWrapAuth)
    let msg := encodeAll (authenticated crypt c.regData.authKey prev
      (frontEncr version 0x0C .enrolleeNonce enrolleeNonce ++ [encr] ++ ext))
    ∃ m ap p, m.Holds msg ∧ processMessageM8 crypt hmac msg c =
      some (.noError, (c.setProfile p).onReg fun r =>
        { r with lastRx := m, apEncrSettings := ap }) := by
  intro encr msg
  have hencr : encr.value.length ≤ 184 := by
    cases wrapped <;> simp [encr, settingsM8, credentialList, be16] <;> omega
  have hextlen := hext.length_le
  have hlen : msg.length ≤ 2048 := by
    simp [msg, authenticated, frontEncr]
    omega
  obtain ⟨m, hsave, hm⟩ := c.regData.lastRx.exists_save hlen
  obtain ⟨rest, hdata⟩ := hm.data
  let auth := authenticatorOf crypt c.regData.authKey prev
    (frontEncr version 0x0C .enrolleeNonce enrolleeNonce ++ [encr] ++ ext)
  let tail : List Attr := [⟨WscId.authenticator.type, auth.bytes⟩]
  let s₀ : Parse := ⟨c.onReg fun r => { r with lastRx := m }, hmac, fun id => [].contains id⟩
  obtain ⟨ap, p, hsettings⟩ := parseM8_settings crypt hv hvprint hw hwprint authType hwep keyIndex
    mac wrapped keyWrapAuth iv s₀ (encodeAll (ext ++ tail) ++ rest)
  let c' : WscCtrl := (c.setProfile p).onReg fun r =>
    { r with lastRx := m, apEncrSettings := ap }
  have hencrSettings : parseM8 crypt .encrSettings encr.value.length
      (encr.value ++ (encodeAll (ext ++ tail) ++ rest)) s₀ =
      some (.next encr.value.length ⟨c', hmac, fun _ => false⟩) := hsettings
  have hwalk : walk (dispatchStop (parseM8 crypt)) msg.length (msg ++ rest) s₀ =
      some (.inl ⟨c', auth, fun _ => false⟩) := by
    have hmsg : msg = encodeAll (⟨WscId.version.type, [version]⟩ :: ⟨WscId.msgType.type, [0x0C]⟩ ::
        ⟨WscId.enrolleeNonce.type, enrolleeNonce.bytes⟩ ::
        ⟨WscId.encrSettings.type, encr.value⟩ :: (ext ++ tail)) := by
      simp only [msg, authenticated, frontEncr, cons_append, nil_append, tail, auth]
      rfl
    have hauth : parseM8 crypt .authenticator auth.bytes.length (auth.bytes ++ (encodeAll [] ++ rest))
        ⟨c', hmac, fun _ => false⟩ =
        some (.next auth.bytes.length ⟨c', auth, fun _ => false⟩) := by
      simp [parseM8]
    have hpass : ∀ (id : WscId) len q, id ∈ [.version, .msgType, .enrolleeNonce] →
        parseM8 crypt id len q s₀ = some (.next len s₀) := by
      intro id len q hid
      simp at hid
      obtain rfl | rfl | rfl := hid <;> rfl
    rw [hmsg, walk_attr (by simp) (by simp) (hpass _ _ _ (by simp)),
      walk_attr (by simp) (by simp) (hpass _ _ _ (by simp)),
      walk_attr (by simp) (by simp) (hpass _ _ _ (by simp)),
      walk_attr (by omega) (by simp [tail]) hencrSettings,
      walk_ignored (fun _ _ _ => rfl) hext (by simp [tail]),
      walk_attr (by simp) (.inl (ne_nil_of_length_pos (by simp))) hauth]
    exact walk_stop (by simp) _ _
  refine ⟨m, ap, p, hm, ?_⟩
  have hcheck : checkMessage crypt ⟨c', auth, fun _ => false⟩ = some (.noError, c') :=
    checkMessage_accepts crypt (s := ⟨c', auth, fun _ => false⟩) htx hm
      (by simp [hmacDataSize, frontEncr]; omega) rfl rfl
  rw [processMessageM8, startParse, hsave, ← hcheck]
  show (walk _ m.length m.data.bytes s₀).bind _ = _
  rw [hm.length, hdata, hwalk]
  rfl

end RalinkSdk.Wps
