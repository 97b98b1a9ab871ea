import RalinkSdk.Wpa.KeyData

/-!
# Two drivers that shake hands

An authenticator and a supplicant that both run this driver exchange the messages of the 4-way
handshake and, for WPA, of the group handshake.  Every frame goes through the checks of
`WpaEAPOLKeyAction` to the handler for it, and the answer goes back.

## Main results

- `not_agree_of_misread`: message 3 of WPA2 runs over the buffer for the group key, when the memory
  behind its key data reads as the header of one.
-/

namespace RalinkSdk.Wpa

open Lib Crypt Option

variable (c : Crypto)

/-! ## The exchange -/

/-- Both ends: the BSS with its entry for the station, the client link with its entry for the AP. -/
structure Ends where
  bss : Bss
  auth : Entry
  supp : Supplicant
  link : Entry

/-- What each call of an exchange finds: the start, and the handler of each message. -/
structure Calls where
  start : Env
  on : MsgType → Env

/-- The frame that a call has sent. -/
def sentPacket : List Effect → Option EapolPacket
  | [] => none
  | .sent p :: _ => some p
  | _ :: effects => sentPacket effects

/-- A frame passes the checks of `WpaEAPOLKeyAction` and takes the branch for its message. -/
def received (e : Entry) (f : Elem) (msgType : MsgType) : Bool :=
  admitted e f && actionOf f.packet = some msgType.action

namespace Ends

/-- The authenticator starts the handshake. -/
def starts (x : Ends) (env : Env) : Ends × List Effect :=
  let (m, auth, effects) := wpaStart4WayHS c x.bss x.auth env
  ({ x with bss := { x.bss with mbss := m }, auth := auth }, effects)

/-- The supplicant takes message 1; nothing is left if a check fails. -/
def takesMsg1 (x : Ends) (p : EapolPacket) (env : Env) : Option (Ends × List Effect) :=
  let f := frameOf x.bss.mbss.bssid p
  if received x.link f .pair1 ∧ messageOk c x.link .pair1 p env then
    let (link, effects) := peerPairMsg1Action c x.supp x.link f env
    some ({ x with link := link }, effects)
  else none

/-- The authenticator takes message 2.  The checks are made with the PTK that it makes. -/
def takesMsg2 (x : Ends) (p : EapolPacket) (env : Env) : Option (Ends × List Effect) :=
  let f := frameOf x.supp.currentAddress p
  if received x.auth f .pair2 ∧ messageOk c (withMsg2 c x.bss.mbss x.auth p) .pair2 p env then
    let (auth, effects) := peerPairMsg2Action c x.bss x.auth f env
    some ({ x with auth := auth }, effects)
  else none

def takesMsg3 (x : Ends) (p : EapolPacket) (env : Env) : Option (Ends × List Effect) :=
  let f := frameOf x.bss.mbss.bssid p
  match received x.link f .pair3, supplicantSanity c x.supp x.link .pair3 p env with
  | true, .accepted _ =>
    let (supp, link, effects) := peerPairMsg3Action c x.supp x.link f env
    some ({ x with supp := supp, link := link }, effects)
  | _, _ => none

def takesMsg4 (x : Ends) (p : EapolPacket) (env : Env) : Option (Ends × List Effect) :=
  let f := frameOf x.supp.currentAddress p
  if received x.auth f .pair4 ∧ messageOk c x.auth .pair4 p env then
    let (m, auth, effects) := peerPairMsg4Action c x.bss x.auth f env
    some ({ x with bss := { x.bss with mbss := m }, auth := auth }, effects)
  else none

def takesGroupMsg1 (x : Ends) (p : EapolPacket) (env : Env) : Option (Ends × List Effect) :=
  let f := frameOf x.bss.mbss.bssid p
  match received x.link f .group1, supplicantSanity c x.supp x.link .group1 p env with
  | true, .accepted _ =>
    let (supp, link, effects) := peerGroupMsg1Action c x.supp x.link f env
    some ({ x with supp := supp, link := link }, effects)
  | _, _ => none

def takesGroupMsg2 (x : Ends) (p : EapolPacket) (env : Env) : Option (Ends × List Effect) :=
  let f := frameOf x.supp.currentAddress p
  if received x.auth f .group2 ∧ messageOk c x.auth .group2 p env then
    let (auth, effects) := peerGroupMsg2Action c x.bss x.auth f env
    some ({ x with auth := auth }, effects)
  else none

end Ends

/-- The group handshake of WPA, from its first message on. -/
def groupExchange (x : Ends) (msg1 : EapolPacket) (k : Calls) : Option Ends := do
  let (x, effects) ← x.takesGroupMsg1 c msg1 (k.on .group1)
  let msg2 ← sentPacket effects
  let (x, _) ← x.takesGroupMsg2 c msg2 (k.on .group2)
  return x

/-- The whole exchange: what both ends are left with, if every frame was sent and passed the checks
    of the other side. -/
def exchange (x : Ends) (k : Calls) : Option Ends := do
  let (x, effects) := x.starts c k.start
  let msg1 ← sentPacket effects
  let (x, effects) ← x.takesMsg1 c msg1 (k.on .pair1)
  let msg2 ← sentPacket effects
  let (x, effects) ← x.takesMsg2 c msg2 (k.on .pair2)
  let msg3 ← sentPacket effects
  let (x, effects) ← x.takesMsg3 c msg3 (k.on .pair3)
  let msg4 ← sentPacket effects
  let (x, effects) ← x.takesMsg4 c msg4 (k.on .pair4)
  if x.auth.authMode.isWpa2 then return x
  else
    let groupMsg1 ← sentPacket effects
    groupExchange c x groupMsg1 k

/-- The group key of a BSS, as long as its cipher wants it. -/
def Mbss.groupKey (m : Mbss) : List Byte := m.gtk.take (gtkLen m.groupCipher)

/-- **Agreement**: the exchange goes through, both ends have the same PTK, and the supplicant has the
    group key of the BSS under its index. -/
def Agree (x : Ends) (k : Calls) : Prop :=
  ∃ y, exchange c x k = some y ∧ y.auth.ptk = y.link.ptk ∧
    y.supp.Holds x.bss.mbss.groupKey x.bss.mbss.defaultKeyId

/-! ## Two ends that fit -/

/-- The two ends are set up for each other.  `GroupKeyWepStatus` is TKIP for TKIP stations, and the
    RSN elements are those of `RTMPMakeRSNIE`, which makes no more than 40 bytes. -/
structure Paired (x : Ends) : Prop where
  running : x.bss.resetting = false
  inRange : x.bss.inRange = true
  client : x.auth.kind = .client
  apcli : x.link.kind = .apcli
  authAssoc : x.auth.assoc = true
  linkAssoc : x.link.assoc = true
  wpa : x.auth.authMode.isWpa = true
  mode : x.link.authMode = x.auth.authMode
  pairwise : x.link.wepStatus = x.auth.wepStatus
  group : x.supp.groupCipher = x.bss.mbss.groupCipher
  groupCipher : x.bss.mbss.groupCipher ≠ .other
  groupTkip : x.auth.wepStatus = .tkip → x.bss.mbss.groupCipher = .tkip
  station : x.auth.addr = x.supp.currentAddress
  bssid : x.link.addr = x.bss.mbss.bssid
  gtk : x.bss.mbss.gtk.length = 32
  keyIdx : x.bss.mbss.defaultKeyId ≤ 3
  rsnLen : (rsnIeFor x.bss.mbss x.auth).length ≤ 128
  rsnOui : x.auth.authMode.isWpa2 = true →
    ((rsnIeFor x.bss.mbss x.auth).drop 2).take 3 = [0x00, 0x0f, 0xac]
  suppRsn : 0 < x.supp.rsnIe.length ∧ x.supp.rsnIe.length ≤ 128

/-- The ends before the exchange: the authenticator may start, both have the same master key, and
    the supplicant has seen no larger counter. -/
structure Ready (x : Ends) : Prop extends Paired x where
  noWsc : x.bss.mbss.wscEntry ≠ some x.auth.addr
  startable : WpaState.initPmk.num ≤ x.auth.wpaState.num ∧
    x.auth.wpaState.num ≤ WpaState.ptkStart.num
  listening : WpaState.initPsk.num ≤ x.link.wpaState.num
  sameKey : x.supp.pmk = (cachedKeyBss x.bss.mbss x.auth).pmk
  counter : x.link.rCounter ≤ x.auth.rCounter
  counterLimit : x.auth.rCounter.toNat + 3 < 2 ^ 64

/-- No call lacks memory. -/
def Calls.Served (k : Calls) : Prop :=
  (∀ a, k.start.mpool a = true) ∧
    ∀ msgType, (k.on msgType).keyData.isSome = true ∧ ∀ a, (k.on msgType).mpool a = true

/-- The memory of the call that takes message 3 reads as the header of a group key behind the key
    data, where the AES key wrap pads it. -/
def KeyDataMisread (x : Ends) (mem : Nat → Byte) : Prop :=
  let len := (rsnIeFor x.bss.mbss x.auth).length + gtkLen x.bss.mbss.groupCipher + 10
  x.auth.authMode.isWpa2 = true ∧
    keyDescVerOf x.auth.wepStatus x.bss.mbss.groupCipher = keyDescAes ∧
    ReadsAsGtk len fun j => mem (len + j)

/-! ## What an exchange keeps -/

/-- The fields of an entry that no handshake changes. -/
structure SameStation (e e' : Entry) : Prop where
  addr : e'.addr = e.addr
  kind : e'.kind = e.kind
  assoc : e'.assoc = e.assoc
  authMode : e'.authMode = e.authMode
  wepStatus : e'.wepStatus = e.wepStatus

/-- The BSS with another master key and another cache. -/
def Bss.withKeys (b : Bss) (pmk : List Byte) (cache : Fin maxPmkidCount → CacheSlot) : Bss :=
  { b with mbss := { b.mbss with pmk := pmk, pmkidCache := cache } }

/-- What both ends keep on the way. -/
structure Keeps (x y : Ends) : Prop where
  bss : ∃ pmk cache, y.bss = x.bss.withKeys pmk cache
  auth : SameStation x.auth y.auth
  link : SameStation x.link y.link
  currentAddress : y.supp.currentAddress = x.supp.currentAddress
  groupCipher : y.supp.groupCipher = x.supp.groupCipher
  rsnIe : y.supp.rsnIe = x.supp.rsnIe

namespace SameStation

theorem rfl' (e : Entry) : SameStation e e := ⟨rfl, rfl, rfl, rfl, rfl⟩

theorem trans {e e' e'' : Entry} (h : SameStation e e') (h' : SameStation e' e'') :
    SameStation e e'' :=
  ⟨h'.addr.trans h.addr, h'.kind.trans h.kind, h'.assoc.trans h.assoc,
    h'.authMode.trans h.authMode, h'.wepStatus.trans h.wepStatus⟩

end SameStation

namespace Keeps

variable {x y z : Ends}

theorem trans (h : Keeps x y) (h' : Keeps y z) : Keeps x z := by
  obtain ⟨pmk, cache, hbss⟩ := h'.bss
  obtain ⟨_, _, hbss₀⟩ := h.bss
  exact {
    bss := ⟨pmk, cache, by rw [hbss, hbss₀]; rfl⟩
    auth := h.auth.trans h'.auth
    link := h.link.trans h'.link
    currentAddress := h'.currentAddress.trans h.currentAddress
    groupCipher := h'.groupCipher.trans h.groupCipher
    rsnIe := h'.rsnIe.trans h.rsnIe }

theorem rsnIeFor_eq (h : Keeps x y) : rsnIeFor y.bss.mbss y.auth = rsnIeFor x.bss.mbss x.auth := by
  obtain ⟨pmk, cache, hbss⟩ := h.bss
  rw [rsnIeFor, h.auth.authMode, hbss]
  rfl

theorem groupKey (h : Keeps x y) : y.bss.mbss.groupKey = x.bss.mbss.groupKey := by
  obtain ⟨pmk, cache, hbss⟩ := h.bss
  rw [hbss]
  rfl

theorem keyIdx (h : Keeps x y) : y.bss.mbss.defaultKeyId = x.bss.mbss.defaultKeyId := by
  obtain ⟨pmk, cache, hbss⟩ := h.bss
  rw [hbss]
  rfl

theorem misread (h : Keeps x y) (mem : Nat → Byte) :
    KeyDataMisread y mem ↔ KeyDataMisread x mem := by
  obtain ⟨pmk, cache, hbss⟩ := h.bss
  rw [KeyDataMisread, h.rsnIeFor_eq, h.auth.authMode, h.auth.wepStatus, hbss]
  rfl

theorem paired (h : Keeps x y) (hx : Paired x) : Paired y := by
  have hrsn := h.rsnIeFor_eq
  obtain ⟨pmk, cache, hbss⟩ := h.bss
  have hgroup : y.bss.mbss.groupCipher = x.bss.mbss.groupCipher := by
    rw [hbss]
    rfl
  exact {
    running := by rw [hbss]; exact hx.running
    inRange := by rw [hbss]; exact hx.inRange
    client := h.auth.kind.trans hx.client
    apcli := h.link.kind.trans hx.apcli
    authAssoc := h.auth.assoc.trans hx.authAssoc
    linkAssoc := h.link.assoc.trans hx.linkAssoc
    wpa := by rw [h.auth.authMode]; exact hx.wpa
    mode := by rw [h.link.authMode, h.auth.authMode]; exact hx.mode
    pairwise := by rw [h.link.wepStatus, h.auth.wepStatus]; exact hx.pairwise
    group := by rw [h.groupCipher, hgroup]; exact hx.group
    groupCipher := by rw [hgroup]; exact hx.groupCipher
    groupTkip := by rw [h.auth.wepStatus, hgroup]; exact hx.groupTkip
    station := by rw [h.auth.addr, h.currentAddress]; exact hx.station
    bssid := by rw [h.link.addr, hbss]; exact hx.bssid
    gtk := by rw [hbss]; exact hx.gtk
    keyIdx := by rw [hbss]; exact hx.keyIdx
    rsnLen := by rw [hrsn]; exact hx.rsnLen
    rsnOui := by rw [h.auth.authMode, hrsn]; exact hx.rsnOui
    suppRsn := by rw [h.rsnIe]; exact hx.suppRsn }

end Keeps

/-! ## Frames that reach their handler -/

section

variable {c}

theorem keyDescVerOf_pairwise {wepStatus groupCipher : WepStatus}
    (h : wepStatus = .tkip → groupCipher = .tkip) :
    (wepStatus = .tkip → keyDescVerOf wepStatus groupCipher = keyDescTkip) ∧
      (wepStatus = .aes → keyDescVerOf wepStatus groupCipher = keyDescAes) := by
  constructor
  · intro hw
    rw [hw, h hw]
    rfl
  · intro hw
    exact if_pos (.inl hw)

theorem received_built {m : MsgParams} {e : Entry} (a : MacAddr)
    (hkind : e.kind = .client ∨ e.kind = .apcli) (hwpa : e.authMode.isWpa = true)
    (hassoc : e.assoc = true) (hstate : WpaState.initPsk.num ≤ e.wpaState.num)
    (hpairwise : m.wepStatus = e.wepStatus) (hgroup : e.wepStatus = .tkip → m.groupCipher = .tkip)
    (hdata : m.msgType = .pair2 → (m.builtKeyData c).length % 2 ^ 16 ≠ 0) :
    received e (frameOf a (constructEapolMsg c m)) m.msgType = true := by
  have hver := keyDescVerOf_pairwise hgroup
  rw [← hpairwise] at hver
  have hadm := admitted_constructEapolMsg c m a e hkind hwpa
    ⟨fun h => hver.1 (hpairwise.trans h), fun h => hver.2 (hpairwise.trans h)⟩ hassoc hstate
  have haction := actionOf_constructEapolMsg c m hdata
  rw [received, hadm, Bool.true_and, decide_eq_true_eq]
  exact haction

end

/-! ## Message 1 -/

section

variable {c} {x : Ends} {env : Env}

/-- Message 1 is on its way. -/
structure Started (x : Ends) (msg1 : EapolPacket) : Prop extends Paired x where
  state : x.auth.wpaState = .ptkStart
  sameKey : x.supp.pmk = x.bss.mbss.pmk
  counter : x.link.rCounter < x.auth.rCounter
  counterLimit : x.auth.rCounter.toNat + 2 < 2 ^ 64
  received : received x.link (frameOf x.bss.mbss.bssid msg1) .pair1 = true
  long : minMsgLen ≤ (frameOf x.bss.mbss.bssid msg1).msgLen
  replay : msg1.replayCounter = x.auth.rCounter
  nonce : msg1.keyNonce = x.auth.aNonce

theorem wpaStart4WayHS_begins {b : Bss} {e : Entry} (hgo : ¬ StartRefused b e)
    (hwsc : b.mbss.wscEntry ≠ some e.addr) (hmem : env.mpool e.addr = true) :
    ∃ msg1, wpaStart4WayHS c b e env =
        (cachedKeyBss b.mbss e, { begun e env with wpaState := .ptkStart },
          loadedKey b.mbss e ++ [.sent msg1]) ∧
      (msg1 = constructEapolMsg c { msgParams (begun e env) b.mbss.groupCipher .pair1 with
          keyNonce := env.rand } ∨
        ∃ pmkid, msg1 = withPmkidKde (constructEapolMsg c { msgParams (begun e env)
          b.mbss.groupCipher .pair1 with keyNonce := env.rand }) pmkid) := by
  simp only [StartRefused, not_or] at hgo
  obtain ⟨h1, h2, h3, h4, h5⟩ := hgo
  unfold wpaStart4WayHS cachedKeyBss loadedKey
  rw [if_neg h1, if_neg h2, if_neg h3, if_neg (by simp [h4, h5]), if_neg hwsc]
  dsimp only
  rw [if_neg (by simp [hmem])]
  cases (if e.authMode = .wpa2 then e.pmkidCacheIdx else none : Option (Fin maxPmkidCount)) with
  | none => exact ⟨_, rfl, .inl rfl⟩
  | some i => exact ⟨_, rfl, .inr ⟨_, rfl⟩⟩

theorem actionOf_congr {p q : EapolPacket} (h : p.keyInfo = q.keyInfo)
    (hack : q.keyInfo.keyAck = true) : actionOf p = actionOf q := by
  unfold actionOf
  rw [h, if_pos hack, if_pos hack]

theorem received_withPmkidKde {e : Entry} {q : EapolPacket} (a : MacAddr) (pmkid : BitVec 128)
    (hack : q.keyInfo.keyAck = true) (hkind : e.kind = .client ∨ e.kind = .apcli)
    (hwpa : e.authMode.isWpa = true) (hpro : q.proVer = 1) (htype : q.type = 0xfe ∨ q.type = 0x02)
    (hver : (e.wepStatus = .tkip → q.keyInfo.keyDescVer = keyDescTkip) ∧
      (e.wepStatus = .aes → q.keyInfo.keyDescVer = keyDescAes))
    (hassoc : e.assoc = true) (hstate : WpaState.initPsk.num ≤ e.wpaState.num)
    (haction : actionOf q = some .pairMsg1) :
    received e (frameOf a (withPmkidKde q pmkid)) .pair1 = true := by
  have hadm : admitted e (frameOf a (withPmkidKde q pmkid)) = true :=
    admitted_frameOf _ a e hkind hwpa hpro htype hver hassoc hstate
  have hsame : actionOf (withPmkidKde q pmkid) = actionOf q := actionOf_congr rfl hack
  rw [received, hadm, Bool.true_and, decide_eq_true_eq]
  exact hsame.trans haction

theorem received_msg1 {m : MsgParams} {e : Entry} {p : EapolPacket} (a : MacAddr)
    (hm : m.msgType = .pair1) (hkind : e.kind = .client ∨ e.kind = .apcli)
    (hwpa : e.authMode.isWpa = true) (hassoc : e.assoc = true)
    (hstate : WpaState.initPsk.num ≤ e.wpaState.num) (hpairwise : m.wepStatus = e.wepStatus)
    (hgroup : e.wepStatus = .tkip → m.groupCipher = .tkip)
    (hform : p = constructEapolMsg c m ∨ ∃ pmkid, p = withPmkidKde (constructEapolMsg c m) pmkid) :
    received e (frameOf a p) .pair1 = true ∧ minMsgLen ≤ (frameOf a p).msgLen ∧
      p.replayCounter = m.rCounter ∧ p.keyNonce = m.keyNonce := by
  have hnonce : (constructEapolMsg c m).keyNonce = m.keyNonce := by
    rw [constructEapolMsg_keyNonce, if_pos (.inl (by rw [hm]; decide))]
  have hdata : (m.builtKeyData c).length = 0 := by
    simp [MsgParams.builtKeyData, constructEapolKeyData, hm]
  have hbody : (constructEapolMsg c m).bodyLen = 95 := by
    rw [constructEapolMsg_bodyLen, hdata]
    rfl
  have hnot2 : m.msgType = .pair2 → (m.builtKeyData c).length % 2 ^ 16 ≠ 0 := by
    rw [hm]
    intro h
    cases h
  have hplain := received_built (c := c) a hkind hwpa hassoc hstate hpairwise hgroup hnot2
  rw [hm] at hplain
  rcases hform with rfl | ⟨pmkid, rfl⟩
  · refine ⟨hplain, ?_, constructEapolMsg_replayCounter c m, hnonce⟩
    change minMsgLen ≤ headerLen + ((constructEapolMsg c m).bodyLen.toNat + 4)
    rw [hbody]
    decide
  · have hver := keyDescVerOf_pairwise hgroup
    rw [← hpairwise] at hver
    have hkeyVer : (constructEapolMsg c m).keyInfo.keyDescVer =
        keyDescVerOf m.wepStatus m.groupCipher := by
      rw [constructEapolMsg_keyInfo]
      rfl
    have htype : (constructEapolMsg c m).type = 0xfe ∨ (constructEapolMsg c m).type = 0x02 := by
      rw [constructEapolMsg_type]
      split_ifs
      · exact .inr rfl
      · exact .inl rfl
    have hack : (constructEapolMsg c m).keyInfo.keyAck = true := by
      rw [constructEapolMsg_keyInfo, keyInfoOf, hm]
      rfl
    have haction := actionOf_constructEapolMsg c m hnot2
    rw [hm] at haction
    rw [← hkeyVer, hpairwise] at hver
    refine ⟨received_withPmkidKde a pmkid hack hkind hwpa (constructEapolMsg_proVer c m) htype hver
      hassoc hstate haction, ?_, constructEapolMsg_replayCounter c m, hnonce⟩
    change minMsgLen ≤ headerLen + (((constructEapolMsg c m).bodyLen + 22).toNat + 4)
    rw [hbody]
    decide

theorem cachedKeyBss_eq (m : Mbss) (e : Entry) :
    cachedKeyBss m e = { m with pmk := (cachedKeyBss m e).pmk } := by
  unfold cachedKeyBss
  cases (if e.authMode = .wpa2 then e.pmkidCacheIdx else none : Option (Fin maxPmkidCount)) with
  | none => rfl
  | some i => rfl

theorem sentPacket_loadedKey (m : Mbss) (e : Entry) (p : EapolPacket) :
    sentPacket (loadedKey m e ++ [.sent p]) = some p := by
  unfold loadedKey
  cases (if e.authMode = .wpa2 then e.pmkidCacheIdx else none : Option (Fin maxPmkidCount)) with
  | none => rfl
  | some i => rfl

theorem toNat_succ {n : BitVec 64} (h : n.toNat + 1 < 2 ^ 64) : (n + 1).toNat = n.toNat + 1 := by
  rw [BitVec.toNat_add]
  exact Nat.mod_eq_of_lt h

/-- **Start**: message 1 is sent. -/
theorem Ready.starts (h : Ready x) (hmem : env.mpool x.auth.addr = true) :
    ∃ y effects msg1, x.starts c env = (y, effects) ∧ sentPacket effects = some msg1 ∧
      Started y msg1 ∧ Keeps x y := by
  have hgo : ¬ StartRefused x.bss x.auth := by
    rintro (h1 | h1 | h1 | h1 | h1)
    · rw [h.running] at h1
      exact absurd h1 (by decide)
    · exact h1 h.client
    · rw [h.inRange] at h1
      exact absurd h1 (by decide)
    · exact absurd h.startable.2 (by omega)
    · exact absurd h.startable.1 (by omega)
  obtain ⟨msg1, heq, hform⟩ := wpaStart4WayHS_begins (c := c) hgo h.noWsc hmem
  have hframe := received_msg1 x.bss.mbss.bssid rfl (.inr h.apcli) (h.mode ▸ h.wpa) h.linkAssoc
    h.listening h.pairwise.symm (fun hw => h.groupTkip (h.pairwise ▸ hw)) hform
  obtain ⟨hreceived, hlong, hreplay, hnonce⟩ := hframe
  have hlimit := h.counterLimit
  have hnext : (x.auth.rCounter + 1).toNat = x.auth.rCounter.toNat + 1 := toNat_succ (by omega)
  have hcounter : x.link.rCounter < x.auth.rCounter + 1 := by
    have hle : x.link.rCounter.toNat ≤ x.auth.rCounter.toNat := h.counter
    rw [BitVec.lt_def, hnext]
    omega
  have hstart : x.starts c env = ({ x with
      bss := x.bss.withKeys (cachedKeyBss x.bss.mbss x.auth).pmk x.bss.mbss.pmkidCache
      auth := { begun x.auth env with wpaState := .ptkStart } },
      loadedKey x.bss.mbss x.auth ++ [.sent msg1]) := by
    rw [Ends.starts, heq, cachedKeyBss_eq]
    rfl
  have hkeeps : Keeps x (x.starts c env).1 := by
    rw [hstart]
    exact ⟨⟨_, _, rfl⟩, ⟨rfl, rfl, rfl, rfl, rfl⟩, .rfl' _, rfl, rfl, rfl⟩
  rw [hstart] at hkeeps
  refine ⟨_, _, msg1, hstart, sentPacket_loadedKey _ _ _, ?_, hkeeps⟩
  exact {
    toPaired := hkeeps.paired h.toPaired
    state := rfl
    sameKey := h.sameKey
    counter := hcounter
    counterLimit := by
      change (x.auth.rCounter + 1).toNat + 2 < 2 ^ 64
      omega
    received := hreceived
    long := hlong
    replay := hreplay
    nonce := hnonce }

end

/-! ## Message 2 -/

section

variable {c} {x : Ends} {env : Env}

/-- Message 2 of the supplicant. -/
def Ends.msg2 (x : Ends) : MsgParams :=
  { msgParams x.link x.supp.groupCipher .pair2 with
    keyNonce := x.link.sNonce
    rsnIe := x.supp.rsnIe }

variable (c) in
/-- Message 2 is on its way: the supplicant has its PTK. -/
structure Responded (x : Ends) : Prop extends Paired x where
  state : x.auth.wpaState = .ptkStart
  linkState : x.link.wpaState = .ptkInitNegotiating
  nonce : x.link.aNonce = x.auth.aNonce
  ptk : x.link.ptk =
    wpaDerivePTK c x.bss.mbss.pmk x.auth.aNonce x.bss.mbss.bssid x.link.sNonce x.auth.addr
  counter : x.link.rCounter = x.auth.rCounter
  counterLimit : x.auth.rCounter.toNat + 2 < 2 ^ 64

theorem peerPairMsg1Action_answer {s : Supplicant} {e : Entry} {f : Elem}
    (hlen : minMsgLen ≤ f.msgLen) (hok : messageOk c e .pair1 f.packet env = true)
    (hmem : env.mpool e.addr = true) :
    peerPairMsg1Action c s e f env = (withMsg1 c s e f.packet env,
      [.derived s.pmk f.packet.keyNonce env.rand,
        .sent (constructEapolMsg c { msgParams (withMsg1 c s e f.packet env) s.groupCipher .pair2 with
          keyNonce := env.rand
          rsnIe := s.rsnIe })]) := by
  unfold peerPairMsg1Action
  dsimp only
  rw [if_neg (by omega), if_neg (by simp [hok]), if_neg (by simp [hmem])]
  rfl

/-- **Message 1** is answered. -/
theorem Started.takesMsg1 {msg1 : EapolPacket} (h : Started x msg1)
    (hkey : env.keyData.isSome = true) (hmem : env.mpool x.link.addr = true) :
    ∃ y effects, x.takesMsg1 c msg1 env = some (y, effects) ∧
      sentPacket effects = some (constructEapolMsg c y.msg2) ∧ Responded c y ∧ Keeps x y := by
  have hok : messageOk c x.link .pair1 msg1 env = true := by
    have hlt : x.link.rCounter < msg1.replayCounter := by
      rw [h.replay]
      exact h.counter
    simp [messageOk, replayOk, MsgType.forSupplicant, hkey, hlt]
  have htakes : x.takesMsg1 c msg1 env = some ({ x with link := withMsg1 c x.supp x.link msg1 env },
      [.derived x.supp.pmk msg1.keyNonce env.rand,
        .sent (constructEapolMsg c
          { msgParams (withMsg1 c x.supp x.link msg1 env) x.supp.groupCipher .pair2 with
            keyNonce := env.rand
            rsnIe := x.supp.rsnIe })]) := by
    unfold Ends.takesMsg1
    dsimp only
    rw [if_pos ⟨h.received, hok⟩, peerPairMsg1Action_answer h.long hok hmem]
    rfl
  have hkeeps : Keeps x { x with link := withMsg1 c x.supp x.link msg1 env } :=
    ⟨⟨_, _, rfl⟩, .rfl' _, ⟨rfl, rfl, rfl, rfl, rfl⟩, rfl, rfl, rfl⟩
  refine ⟨_, _, htakes, rfl, ?_, hkeeps⟩
  exact {
    toPaired := hkeeps.paired h.toPaired
    state := h.state
    linkState := rfl
    nonce := h.nonce
    ptk := by
      change wpaDerivePTK c x.supp.pmk msg1.keyNonce x.link.addr env.rand x.supp.currentAddress = _
      rw [h.sameKey, h.nonce, h.bssid, ← h.station]
      rfl
    counter := h.replay
    counterLimit := h.counterLimit }

end

/-! ## Message 3 -/

section

variable {c} {x : Ends} {env : Env}

/-- Message 3 of the authenticator. -/
def Ends.msg3 (x : Ends) (txRsc : BitVec 48) : MsgParams :=
  { msgParams x.auth x.bss.mbss.groupCipher .pair3 with
    defaultKeyIdx := x.bss.mbss.defaultKeyId
    keyNonce := x.auth.aNonce
    txRsc := txRsc
    gtk := x.bss.mbss.gtk
    rsnIe := rsnIeFor x.bss.mbss x.auth }

/-- Message 3 is on its way: both ends have the PTK. -/
structure Keyed (x : Ends) : Prop extends Paired x where
  state : x.auth.wpaState = .ptkInitNegotiating
  linkState : x.link.wpaState = .ptkInitNegotiating
  nonce : x.link.aNonce = x.auth.aNonce
  ptk : x.link.ptk = x.auth.ptk
  counter : x.link.rCounter < x.auth.rCounter
  counterLimit : x.auth.rCounter.toNat + 1 < 2 ^ 64

theorem peerPairMsg2Action_answer {b : Bss} {e : Entry} {f : Elem} (hdrop : ¬ Msg2Dropped b e f)
    (hacc : Msg2Accepted c b e f env) :
    let e3 : Entry := { withMsg2 c b.mbss e f.packet with
      wpaState := .ptkInitNegotiating
      rCounter := e.rCounter + 1 }
    peerPairMsg2Action c b e f env = (e3, [.derived b.mbss.pmk e.aNonce f.packet.keyNonce,
      .sent (constructEapolMsg c { msgParams e3 b.mbss.groupCipher .pair3 with
        defaultKeyIdx := b.mbss.defaultKeyId
        keyNonce := e3.aNonce
        txRsc := env.txTsc
        gtk := b.mbss.gtk
        rsnIe := rsnIeFor b.mbss e3 })]) := by
  simp only [Msg2Dropped, not_or] at hdrop
  obtain ⟨h1, h2, h3, h4⟩ := hdrop
  obtain ⟨hok, hmem⟩ := hacc
  unfold withMsg2 ptkOfMsg2 at hok
  unfold peerPairMsg2Action
  rw [if_neg h1, if_neg h2, if_neg h3, if_neg h4]
  dsimp only
  rw [hok, if_neg (by decide), if_neg (by simp [hmem])]
  rfl

theorem length_builtKeyData_msg2 (h : Paired x) :
    (x.msg2.builtKeyData c).length = x.supp.rsnIe.length + 2 := by
  have hne : x.supp.rsnIe ≠ [] := List.length_pos_iff.mp h.suppRsn.1
  simp [Ends.msg2, msgParams, MsgParams.builtKeyData, constructEapolKeyData, MsgParams.gtkIncluded,
    plainKeyData, rtmpInsertRSNIE, hne]

/-- **Message 2** is answered. -/
theorem Responded.takesMsg2 (h : Responded c x) (hkey : env.keyData.isSome = true)
    (hmem : env.mpool x.auth.addr = true) :
    ∃ y effects, x.takesMsg2 c (constructEapolMsg c x.msg2) env = some (y, effects) ∧
      sentPacket effects = some (constructEapolMsg c (y.msg3 env.txTsc)) ∧ Keyed y ∧ Keeps x y := by
  set p := constructEapolMsg c x.msg2 with hp
  have hsize := length_builtKeyData_msg2 (c := c) h.toPaired
  have hrsn := h.suppRsn
  have hreceived : received x.auth (frameOf x.supp.currentAddress p) .pair2 = true := by
    refine received_built (m := x.msg2) x.supp.currentAddress (.inl h.client) h.wpa h.authAssoc ?_
      h.pairwise (fun hw => h.group.trans (h.groupTkip hw)) ?_
    · rw [h.state]
      decide
    · intro _
      rw [hsize]
      omega
  have hnonce : p.keyNonce = x.link.sNonce := by
    rw [hp, constructEapolMsg_keyNonce, if_pos (.inl (show MsgType.pair2.num ≤ 3 by decide))]
    rfl
  have hptk : (withMsg2 c x.bss.mbss x.auth p).ptk = x.link.ptk := by
    change wpaDerivePTK c x.bss.mbss.pmk x.auth.aNonce x.bss.mbss.bssid p.keyNonce x.auth.addr = _
    rw [hnonce, h.ptk]
  have hok : messageOk c (withMsg2 c x.bss.mbss x.auth p) .pair2 p env = true :=
    messageOk_answer c rfl (show MsgType.pair2 ≠ .pair1 by decide) hptk h.counter hkey
  have hdrop : ¬ Msg2Dropped x.bss x.auth (frameOf x.supp.currentAddress p) := by
    have hlong := minMsgLen_le_frameOf c x.msg2 x.supp.currentAddress (by rw [hsize]; omega)
    rw [← hp] at hlong
    rintro (h1 | h1 | h1 | h1)
    · exact h1 h.client
    · exact absurd hlong (by omega)
    · rw [h.state] at h1
      exact absurd h1 (by decide)
    · rw [h.inRange] at h1
      exact absurd h1 (by decide)
  have hanswer := peerPairMsg2Action_answer hdrop ⟨hok, hmem⟩
  set auth : Entry := { withMsg2 c x.bss.mbss x.auth p with
    wpaState := .ptkInitNegotiating
    rCounter := x.auth.rCounter + 1 } with hauth
  have htakes : x.takesMsg2 c p env = some ({ x with auth := auth },
      [.derived x.bss.mbss.pmk x.auth.aNonce p.keyNonce,
        .sent (constructEapolMsg c (({ x with auth := auth } : Ends).msg3 env.txTsc))]) := by
    unfold Ends.takesMsg2
    dsimp only
    rw [if_pos ⟨hreceived, hok⟩, hanswer]
    rfl
  have hkeeps : Keeps x { x with auth := auth } :=
    ⟨⟨_, _, rfl⟩, ⟨rfl, rfl, rfl, rfl, rfl⟩, .rfl' _, rfl, rfl, rfl⟩
  have hlimit := h.counterLimit
  have hnext : (x.auth.rCounter + 1).toNat = x.auth.rCounter.toNat + 1 :=
    toNat_succ (by omega)
  refine ⟨_, _, htakes, rfl, ?_, hkeeps⟩
  exact {
    toPaired := hkeeps.paired h.toPaired
    state := rfl
    linkState := h.linkState
    nonce := h.nonce
    ptk := hptk.symm
    counter := by
      change x.link.rCounter < x.auth.rCounter + 1
      rw [h.counter, BitVec.lt_def, hnext]
      omega
    counterLimit := by
      change (x.auth.rCounter + 1).toNat + 1 < 2 ^ 64
      omega }

end

/-! ## Message 4 -/

section

variable {c} {x : Ends} {env : Env}

/-- Message 4 of the supplicant. -/
def Ends.msg4 (x : Ends) : MsgParams := msgParams x.link x.supp.groupCipher .pair4

/-- The supplicant has the group key of the BSS. -/
def Ends.Held (x : Ends) : Prop := x.supp.Holds x.bss.mbss.groupKey x.bss.mbss.defaultKeyId

/-- Message 4 is on its way: the supplicant has installed its key, and the group key of WPA2. -/
structure Confirmed (x : Ends) : Prop extends Paired x where
  state : x.auth.wpaState = .ptkInitNegotiating
  linkState : x.link.wpaState = .ptkInitDone
  ptk : x.link.ptk = x.auth.ptk
  counter : x.link.rCounter = x.auth.rCounter
  counterLimit : x.auth.rCounter.toNat + 1 < 2 ^ 64
  held : x.auth.authMode.isWpa2 = true → x.Held

variable {s s' : Supplicant}

theorem apCliInstallSharedKey_keeps {key : List Byte} {keyLen keyIdx : Nat}
    (h : apCliInstallSharedKey s key keyLen keyIdx = some s') :
    s'.currentAddress = s.currentAddress ∧ s'.groupCipher = s.groupCipher ∧ s'.rsnIe = s.rsnIe := by
  unfold apCliInstallSharedKey at h
  dsimp only at h
  split at h
  · rw [ite_none_right_eq_some] at h
    cases h.2
    exact ⟨rfl, rfl, rfl⟩
  · rw [ite_none_right_eq_some] at h
    cases h.2
    exact ⟨rfl, rfl, rfl⟩
  · cases h

variable {mem : Nat → Byte}

theorem rtmpParseEapolKeyData_keeps {len keyIdx : Nat}
    {wpa2 : Bool} (h : rtmpParseEapolKeyData s mem len keyIdx wpa2 = .accepted s') :
    s'.currentAddress = s.currentAddress ∧ s'.groupCipher = s.groupCipher ∧ s'.rsnIe = s.rsnIe := by
  unfold rtmpParseEapolKeyData at h
  dsimp only at h
  split at h
  · cases h
  · cases h
  · split_ifs at h
    split at h
    · cases h
    · rename_i hinstall
      cases h
      exact apCliInstallSharedKey_keeps hinstall

theorem supplicantSanity_keeps {e : Entry} {msgType : MsgType} {p : EapolPacket}
    (h : supplicantSanity c s e msgType p env = .accepted s') :
    s'.currentAddress = s.currentAddress ∧ s'.groupCipher = s.groupCipher ∧ s'.rsnIe = s.rsnIe := by
  unfold supplicantSanity at h
  split_ifs at h
  · cases h
    exact ⟨rfl, rfl, rfl⟩
  · exact rtmpParseEapolKeyData_keeps h
  · exact rtmpParseEapolKeyData_keeps h
  · cases h
    exact ⟨rfl, rfl, rfl⟩

theorem sentPacket_installed (e : Entry) (bAE : Bool) (p : EapolPacket) :
    sentPacket ((wpaInstallPairwiseKey e bAE).2 ++ [.sent p]) = some p := by
  rcases wpaInstallPairwiseKey_effects e bAE with h | ⟨key, h⟩
  · rw [h]
    rfl
  · rw [h]
    rfl

theorem peerPairMsg3Action_answer {e : Entry} {f : Elem}
    (hlen : minMsgLen ≤ f.msgLen) (hs : supplicantSanity c s e .pair3 f.packet env = .accepted s')
    (hnonce : e.aNonce = f.packet.keyNonce) (hmem : env.mpool e.addr = true) :
    ∃ pairwiseKey asicKey acceptAll portSecured effects,
      peerPairMsg3Action c s e f env = (s', { e with
        rCounter := f.packet.replayCounter
        pairwiseKey := pairwiseKey
        asicKey := asicKey
        acceptAll := acceptAll
        wpaState := .ptkInitDone
        portSecured := portSecured }, effects) ∧
      sentPacket effects = some (constructEapolMsg c
        (msgParams { e with rCounter := f.packet.replayCounter } s'.groupCipher .pair4)) := by
  obtain ⟨pairwiseKey, asicKey, hkey⟩ := wpaInstallPairwiseKey_eq
    { e with rCounter := f.packet.replayCounter, wpaState := .ptkInitDone } false
  unfold peerPairMsg3Action
  rw [if_neg (by omega), hs]
  dsimp only
  unfold acceptPairMsg3
  dsimp only
  rw [if_neg (by simp [hnonce]), if_neg (by simp [hmem]), hkey]
  split_ifs
  · exact ⟨_, _, _, _, _, rfl, sentPacket_installed _ _ _⟩
  · exact ⟨_, _, _, _, _, rfl, sentPacket_installed _ _ _⟩

theorem length_builtKeyData_msg3 (h : Paired x) (txRsc : BitVec 48) :
    ((x.msg3 txRsc).builtKeyData c).length < 2 ^ 15 := by
  have hrsn := h.rsnLen
  cases hmode : x.auth.authMode.isWpa2 with
  | true =>
    have hgtk : (x.msg3 txRsc).gtkIncluded = true := by
      simp [MsgParams.gtkIncluded, Ends.msg3, msgParams, hmode]
    have hbuilt := length_builtKeyData c (x.msg3 txRsc) hgtk
    have hplain := length_plainKeyData_message3 (m := x.msg3 txRsc) rfl hmode (h.rsnOui hmode) h.gtk
    obtain ⟨-, hmax⟩ := gtkLen_bounds x.bss.mbss.groupCipher
    have hsame : (x.msg3 txRsc).rsnIe = rsnIeFor x.bss.mbss x.auth := rfl
    have hcipher : (x.msg3 txRsc).groupCipher = x.bss.mbss.groupCipher := rfl
    rw [hsame, hcipher] at hplain
    omega
  | false =>
    have hle : ((x.msg3 txRsc).builtKeyData c).length ≤ (rsnIeFor x.bss.mbss x.auth).length + 2 := by
      simp only [Ends.msg3, msgParams, MsgParams.builtKeyData, constructEapolKeyData,
        MsgParams.gtkIncluded, plainKeyData, hmode]
      split_ifs <;> simp_all [rtmpInsertRSNIE]
    omega

theorem Keyed.sanity (h : Keyed x) (txRsc : BitVec 48) (hmem : env.keyData = some mem) :
    (KeyDataMisread x mem → supplicantSanity c x.supp x.link .pair3
      (constructEapolMsg c (x.msg3 txRsc)) env = .overflow) ∧
    (¬ KeyDataMisread x mem → ∃ s, supplicantSanity c x.supp x.link .pair3
      (constructEapolMsg c (x.msg3 txRsc)) env = .accepted s ∧
      (x.auth.authMode.isWpa2 = true → s.Holds x.bss.mbss.groupKey x.bss.mbss.defaultKeyId)) := by
  have hok : messageOk c x.link .pair3 (constructEapolMsg c (x.msg3 txRsc)) env = true :=
    messageOk_request c rfl (show MsgType.pair3 ≠ .pair1 by decide) h.ptk h.counter (by simp [hmem])
  cases hmode : x.auth.authMode.isWpa2 with
  | true =>
    have hplain := length_plainKeyData_message3 (m := x.msg3 txRsc) rfl hmode (h.rsnOui hmode) h.gtk
    have hmis : (x.msg3 txRsc).Misread mem ↔ KeyDataMisread x mem := by
      rw [MsgParams.Misread, KeyDataMisread, hplain, hmode]
      simp only [true_and]
      exact Iff.rfl
    obtain ⟨hbad, hgood⟩ := supplicantSanity_message3 (s := x.supp) hok hmem h.ptk
      (by rw [h.mode]; exact hmode) rfl hmode (h.rsnOui hmode) h.rsnLen h.gtk h.group h.groupCipher
      h.keyIdx
    rw [hmis] at hbad hgood
    refine ⟨hbad, fun hnot => ?_⟩
    obtain ⟨s, hs, hholds⟩ := hgood hnot
    exact ⟨s, hs, fun _ => hholds⟩
  | false =>
    have hlink : x.link.authMode.isWpa2 = false := by rw [h.mode]; exact hmode
    refine ⟨fun hm => absurd hm.1 (by simp [hmode]), fun _ => ⟨x.supp, ?_, fun hf => by cases hf⟩⟩
    unfold supplicantSanity
    rw [if_neg (by simp [hok]), if_neg (c := _ ∨ _) (by simp [hlink]), ite_self]

theorem Keyed.received (h : Keyed x) (txRsc : BitVec 48) :
    received x.link (frameOf x.bss.mbss.bssid (constructEapolMsg c (x.msg3 txRsc))) .pair3 =
      true := by
  refine received_built (m := x.msg3 txRsc) _ (.inr h.apcli) (h.mode ▸ h.wpa) h.linkAssoc ?_
    h.pairwise.symm (fun hw => h.groupTkip (h.pairwise ▸ hw)) fun hf => by cases hf
  rw [h.linkState]
  decide

/-- **Message 3** is answered, unless its key data is misread. -/
theorem Keyed.takesMsg3 (h : Keyed x) (txRsc : BitVec 48)
    (hkey : env.keyData = some mem) (hmem : env.mpool x.link.addr = true)
    (hnot : ¬ KeyDataMisread x mem) :
    ∃ y effects, x.takesMsg3 c (constructEapolMsg c (x.msg3 txRsc)) env = some (y, effects) ∧
      sentPacket effects = some (constructEapolMsg c y.msg4) ∧ Confirmed y ∧ Keeps x y := by
  obtain ⟨s, hs, hholds⟩ := (h.sanity (c := c) txRsc hkey).2 hnot
  obtain ⟨hcurrent, hgroup, hrsn⟩ := supplicantSanity_keeps hs
  set p := constructEapolMsg c (x.msg3 txRsc) with hp
  have hreceived : Wpa.received x.link (frameOf x.bss.mbss.bssid p) .pair3 = true := h.received txRsc
  have hnonce : x.link.aNonce = p.keyNonce := by
    rw [hp, constructEapolMsg_keyNonce, if_pos (.inl (show MsgType.pair3.num ≤ 3 by decide))]
    exact h.nonce
  have hlong := minMsgLen_le_frameOf c (x.msg3 txRsc) x.bss.mbss.bssid
    (length_builtKeyData_msg3 h.toPaired txRsc)
  obtain ⟨pairwiseKey, asicKey, acceptAll, portSecured, effects, hanswer, hsent⟩ :=
    peerPairMsg3Action_answer (f := frameOf x.bss.mbss.bssid p) hlong hs hnonce hmem
  set link : Entry := { x.link with
    rCounter := p.replayCounter
    pairwiseKey := pairwiseKey
    asicKey := asicKey
    acceptAll := acceptAll
    wpaState := .ptkInitDone
    portSecured := portSecured }
  have htakes : x.takesMsg3 c p env = some ({ x with supp := s, link := link }, effects) := by
    unfold Ends.takesMsg3
    dsimp only
    rw [hreceived, hs, hanswer]
    rfl
  have hkeeps : Keeps x { x with supp := s, link := link } :=
    ⟨⟨_, _, rfl⟩, .rfl' _, ⟨rfl, rfl, rfl, rfl, rfl⟩, hcurrent, hgroup, hrsn⟩
  refine ⟨_, _, htakes, hsent, ?_, hkeeps⟩
  exact {
    toPaired := hkeeps.paired h.toPaired
    state := h.state
    linkState := rfl
    ptk := h.ptk
    counter := constructEapolMsg_replayCounter c _
    counterLimit := h.counterLimit
    held := hholds }

theorem Keyed.not_takesMsg3 (h : Keyed x) (txRsc : BitVec 48)
    (hkey : env.keyData = some mem) (hmis : KeyDataMisread x mem) :
    x.takesMsg3 c (constructEapolMsg c (x.msg3 txRsc)) env = none := by
  unfold Ends.takesMsg3
  dsimp only
  rw [h.received txRsc, (h.sanity txRsc hkey).1 hmis]

theorem Confirmed.msg4 (h : Confirmed x) (hkey : env.keyData.isSome = true) :
    let f := frameOf x.supp.currentAddress (constructEapolMsg c x.msg4)
    received x.auth f .pair4 = true ∧ Msg4Accepted c x.bss x.auth f env := by
  have hsize : (x.msg4.builtKeyData c).length = 0 := rfl
  have hok : messageOk c x.auth .pair4 (constructEapolMsg c x.msg4) env = true :=
    messageOk_answer c rfl (show MsgType.pair4 ≠ .pair1 by decide) h.ptk.symm h.counter hkey
  refine ⟨?_, h.client, ?_, ?_, h.inRange, hok⟩
  · refine received_built (m := x.msg4) _ (.inl h.client) h.wpa h.authAssoc ?_ h.pairwise
      (fun hw => h.group.trans (h.groupTkip hw)) fun hf => by cases hf
    rw [h.state]
    decide
  · exact minMsgLen_le_frameOf c x.msg4 _ (by omega)
  · rw [h.state]

/-- **Message 4** is taken; for WPA2 it ends the exchange. -/
theorem Confirmed.takesMsg4 (h : Confirmed x) (hkey : env.keyData.isSome = true) :
    ∃ y effects, x.takesMsg4 c (constructEapolMsg c x.msg4) env = some (y, effects) ∧
      y.auth.authMode = x.auth.authMode ∧ y.auth.ptk = y.link.ptk ∧ y.supp = x.supp := by
  obtain ⟨hreceived, haccepted⟩ := h.msg4 (c := c) hkey
  obtain ⟨-, -, -, -, hok⟩ := id haccepted
  rcases peerPairMsg4Action_cases c x.bss x.auth
    (frameOf x.supp.currentAddress (constructEapolMsg c x.msg4)) env with ⟨hnot, -⟩ | ⟨-, hdone⟩
  · exact absurd haccepted hnot
  · obtain ⟨pairwiseKey, asicKey, gtkState, rCounter, effects, heq, -, -⟩ := hdone
    refine ⟨{ x with
      bss := { x.bss with mbss := cachedBss c x.bss.mbss x.auth env }
      auth := handshakeDone x.auth pairwiseKey asicKey gtkState rCounter }, effects, ?_, rfl,
      h.ptk.symm, rfl⟩
    unfold Ends.takesMsg4
    dsimp only
    rw [if_pos ⟨hreceived, hok⟩, heq]

end

/-! ## The group handshake of WPA -/

section

variable {c} {x : Ends} {env : Env}

def Ends.groupMsg1 (x : Ends) (txRsc : BitVec 48) : MsgParams :=
  { msgParams x.auth x.bss.mbss.groupCipher .group1 with
    defaultKeyIdx := x.bss.mbss.defaultKeyId
    keyNonce := x.bss.mbss.gNonce
    txRsc := txRsc
    gtk := x.bss.mbss.gtk }

/-- Message 2 of the group handshake, with the key index of an earlier one. -/
def Ends.groupMsg2 (x : Ends) (keyIdx : Nat) : MsgParams :=
  { msgParams x.link x.supp.groupCipher .group2 with defaultKeyIdx := keyIdx }

/-- Message 1 of the group handshake is on its way. -/
structure GroupStarted (x : Ends) : Prop extends Paired x where
  wpa1 : x.auth.authMode.isWpa2 = false
  state : x.auth.wpaState = .ptkInitDone
  linkState : x.link.wpaState = .ptkInitDone
  ptk : x.link.ptk = x.auth.ptk
  counter : x.link.rCounter < x.auth.rCounter

/-- Message 2 of the group handshake is on its way. -/
structure GroupAnswered (x : Ends) : Prop extends Paired x where
  state : x.auth.wpaState = .ptkInitDone
  ptk : x.link.ptk = x.auth.ptk
  counter : x.link.rCounter = x.auth.rCounter

theorem peerPairMsg4Action_group {b : Bss} {e : Entry} {f : Elem} (hacc : Msg4Accepted c b e f env)
    (hmode : e.authMode.isWpa2 = false) (hmem : env.mpool e.addr = true) :
    ∃ pairwiseKey asicKey effects,
      let e' := handshakeDone e pairwiseKey asicKey e.gtkState (e.rCounter + 1)
      peerPairMsg4Action c b e f env = (b.mbss, e', effects) ∧
      sentPacket effects = some (constructEapolMsg c { msgParams e' b.mbss.groupCipher .group1 with
        defaultKeyIdx := b.mbss.defaultKeyId
        keyNonce := b.mbss.gNonce
        txRsc := env.txTsc
        gtk := b.mbss.gtk }) := by
  obtain ⟨hkind, hlen, hstate, hrange, hok⟩ := hacc
  obtain ⟨pairwiseKey, asicKey, hkey⟩ := wpaInstallPairwiseKey_eq e true
  refine ⟨pairwiseKey, asicKey, _, ?_, sentPacket_installed e true _⟩
  unfold peerPairMsg4Action
  rw [if_neg (by simp [hkind]), if_neg (by omega), if_neg (by omega), if_neg (by simp [hrange]),
    if_neg (by simp [hok])]
  dsimp only
  rw [hkey]
  dsimp only
  rw [hmode, if_neg Bool.false_ne_true]
  unfold wpaStart2WayGroupHS
  dsimp only
  rw [if_neg (by simp [hkind]), if_neg (by simp [hrange]), if_neg (by simp [hmem])]
  rfl

/-- **Message 4 of WPA** is answered with the group key. -/
theorem Confirmed.takesMsg4_wpa (h : Confirmed x) (hkey : env.keyData.isSome = true)
    (hmem : env.mpool x.auth.addr = true) (hmode : x.auth.authMode.isWpa2 = false) :
    ∃ y effects, x.takesMsg4 c (constructEapolMsg c x.msg4) env = some (y, effects) ∧
      sentPacket effects = some (constructEapolMsg c (y.groupMsg1 env.txTsc)) ∧ GroupStarted y ∧
      Keeps x y := by
  obtain ⟨hreceived, haccepted⟩ := h.msg4 (c := c) hkey
  obtain ⟨-, -, -, -, hok⟩ := id haccepted
  obtain ⟨pairwiseKey, asicKey, effects, hanswer, hsent⟩ :=
    peerPairMsg4Action_group haccepted hmode hmem
  set auth := handshakeDone x.auth pairwiseKey asicKey x.auth.gtkState (x.auth.rCounter + 1)
  have htakes : x.takesMsg4 c (constructEapolMsg c x.msg4) env =
      some ({ x with auth := auth }, effects) := by
    unfold Ends.takesMsg4
    dsimp only
    rw [if_pos ⟨hreceived, hok⟩, hanswer]
  have hkeeps : Keeps x { x with auth := auth } :=
    ⟨⟨_, _, rfl⟩, ⟨rfl, rfl, rfl, rfl, rfl⟩, .rfl' _, rfl, rfl, rfl⟩
  have hnext := toNat_succ h.counterLimit
  refine ⟨_, _, htakes, hsent, ?_, hkeeps⟩
  exact {
    toPaired := hkeeps.paired h.toPaired
    wpa1 := hmode
    state := rfl
    linkState := h.linkState
    ptk := h.ptk
    counter := by
      change x.link.rCounter < x.auth.rCounter + 1
      rw [h.counter, BitVec.lt_def, hnext]
      omega }

/-- **Message 1 of the group handshake** gives the supplicant the group key. -/
theorem GroupStarted.takesGroupMsg1 (h : GroupStarted x) (txRsc : BitVec 48) {mem : Nat → Byte}
    (hkey : env.keyData = some mem) (hmem : env.mpool x.link.addr = true) : ∃ y effects keyIdx,
      x.takesGroupMsg1 c (constructEapolMsg c (x.groupMsg1 txRsc)) env = some (y, effects) ∧
      sentPacket effects = some (constructEapolMsg c (y.groupMsg2 keyIdx)) ∧ GroupAnswered y ∧
      Keeps x y ∧ y.Held := by
  set p := constructEapolMsg c (x.groupMsg1 txRsc) with hp
  have hlink : x.link.authMode.isWpa2 = false := by
    rw [h.mode]
    exact h.wpa1
  have hok : messageOk c x.link .group1 p env = true :=
    messageOk_request c rfl (show MsgType.group1 ≠ .pair1 by decide) h.ptk h.counter (by simp [hkey])
  have hreceived : received x.link (frameOf x.bss.mbss.bssid p) .group1 = true := by
    refine received_built (m := x.groupMsg1 txRsc) _ (.inr h.apcli) (h.mode ▸ h.wpa) h.linkAssoc ?_
      h.pairwise.symm (fun hw => h.groupTkip (h.pairwise ▸ hw)) fun hf => by cases hf
    rw [h.linkState]
    decide
  obtain ⟨s, hs, hholds⟩ := supplicantSanity_group1 (s := x.supp) hok hkey h.ptk hlink rfl h.wpa1
    h.gtk h.group h.groupCipher h.keyIdx
  obtain ⟨hcurrent, hgroup, hrsn⟩ := supplicantSanity_keeps hs
  set link : Entry := { x.link with
    rCounter := p.replayCounter
    portSecured := true
    acceptAll := true }
  have hanswer : peerGroupMsg1Action c x.supp x.link (frameOf x.bss.mbss.bssid p) env =
      (s, link, [.sent (constructEapolMsg c { msgParams link x.supp.groupCipher .group2 with
        defaultKeyIdx := x.supp.defaultKeyId })]) := by
    unfold peerGroupMsg1Action
    rw [show (frameOf x.bss.mbss.bssid p).packet = p from rfl, hs]
    dsimp only
    rw [if_neg (by simp [hmem])]
    rfl
  have htakes : x.takesGroupMsg1 c p env = some ({ x with supp := s, link := link },
      [.sent (constructEapolMsg c { msgParams link x.supp.groupCipher .group2 with
        defaultKeyIdx := x.supp.defaultKeyId })]) := by
    unfold Ends.takesGroupMsg1
    dsimp only
    rw [hreceived, hs, hanswer]
  have hkeeps : Keeps x { x with supp := s, link := link } :=
    ⟨⟨_, _, rfl⟩, .rfl' _, ⟨rfl, rfl, rfl, rfl, rfl⟩, hcurrent, hgroup, hrsn⟩
  refine ⟨_, _, x.supp.defaultKeyId, htakes, ?_, ?_, hkeeps, hholds⟩
  · rw [Ends.groupMsg2, hgroup]
    rfl
  · exact {
      toPaired := hkeeps.paired h.toPaired
      state := h.state
      ptk := h.ptk
      counter := constructEapolMsg_replayCounter c _ }

/-- **Message 2 of the group handshake** ends the exchange. -/
theorem GroupAnswered.takesGroupMsg2 (h : GroupAnswered x) (keyIdx : Nat)
    (hkey : env.keyData.isSome = true) :
    ∃ y effects, x.takesGroupMsg2 c (constructEapolMsg c (x.groupMsg2 keyIdx)) env =
        some (y, effects) ∧
      y.auth.ptk = y.link.ptk ∧ y.supp = x.supp := by
  set p := constructEapolMsg c (x.groupMsg2 keyIdx) with hp
  have hok : messageOk c x.auth .group2 p env = true :=
    messageOk_answer c rfl (show MsgType.group2 ≠ .pair1 by decide) h.ptk.symm h.counter hkey
  have hreceived : received x.auth (frameOf x.supp.currentAddress p) .group2 = true := by
    refine received_built (m := x.groupMsg2 keyIdx) _ (.inl h.client) h.wpa h.authAssoc ?_
      h.pairwise (fun hw => h.group.trans (h.groupTkip hw)) fun hf => by cases hf
    rw [h.state]
    decide
  rcases peerGroupMsg2Action_cases c x.bss x.auth (frameOf x.supp.currentAddress p) env with
    heq | ⟨-, heq⟩
  · refine ⟨{ x with auth := x.auth }, [], ?_, h.ptk.symm, rfl⟩
    unfold Ends.takesGroupMsg2
    dsimp only
    rw [if_pos ⟨hreceived, hok⟩, heq]
  · refine ⟨{ x with auth := { x.auth with gtkState := .established } }, [], ?_, h.ptk.symm, rfl⟩
    unfold Ends.takesGroupMsg2
    dsimp only
    rw [if_pos ⟨hreceived, hok⟩, heq]

end

/-! ## Agreement -/

section

variable {c} {x : Ends} {k : Calls}

theorem Ready.reaches_msg3 (h : Ready x) (hk : k.Served) :
    ∃ x₁ fx₁ msg1 x₂ fx₂ x₃ fx₃, x.starts c k.start = (x₁, fx₁) ∧ sentPacket fx₁ = some msg1 ∧
      x₁.takesMsg1 c msg1 (k.on .pair1) = some (x₂, fx₂) ∧
      sentPacket fx₂ = some (constructEapolMsg c x₂.msg2) ∧
      x₂.takesMsg2 c (constructEapolMsg c x₂.msg2) (k.on .pair2) = some (x₃, fx₃) ∧
      sentPacket fx₃ = some (constructEapolMsg c (x₃.msg3 (k.on .pair2).txTsc)) ∧
      Keyed x₃ ∧ Keeps x x₃ := by
  obtain ⟨hstart, hserved⟩ := hk
  obtain ⟨x₁, fx₁, msg1, h₁, hs₁, hstarted, hk₁⟩ := h.starts (c := c) (hstart x.auth.addr)
  obtain ⟨x₂, fx₂, h₂, hs₂, hresponded, hk₂⟩ :=
    hstarted.takesMsg1 (c := c) (hserved .pair1).1 ((hserved .pair1).2 _)
  obtain ⟨x₃, fx₃, h₃, hs₃, hkeyed, hk₃⟩ :=
    hresponded.takesMsg2 (hserved .pair2).1 ((hserved .pair2).2 _)
  exact ⟨x₁, fx₁, msg1, x₂, fx₂, x₃, fx₃, h₁, hs₁, h₂, hs₂, h₃, hs₃, hkeyed,
    (hk₁.trans hk₂).trans hk₃⟩

theorem GroupStarted.groupExchange (h : GroupStarted x) (hk : k.Served) (txRsc : BitVec 48) :
    ∃ y, groupExchange c x (constructEapolMsg c (x.groupMsg1 txRsc)) k = some y ∧
      y.auth.ptk = y.link.ptk ∧ y.supp.Holds x.bss.mbss.groupKey x.bss.mbss.defaultKeyId := by
  obtain ⟨-, hserved⟩ := hk
  obtain ⟨mem, hmem⟩ := isSome_iff_exists.mp (hserved .group1).1
  obtain ⟨x₁, fx₁, keyIdx, h₁, hs₁, hanswered, hkeeps, hheld⟩ :=
    h.takesGroupMsg1 (c := c) txRsc hmem ((hserved .group1).2 _)
  obtain ⟨x₂, fx₂, h₂, hptk, hsupp⟩ :=
    hanswered.takesGroupMsg2 (c := c) keyIdx (hserved .group2).1
  refine ⟨x₂, ?_, hptk, ?_⟩
  · simp only [Wpa.groupExchange, h₁, hs₁, h₂, bind_eq_bind, bind_some]
    rfl
  · rw [hsupp, ← hkeeps.groupKey, ← hkeeps.keyIdx]
    exact hheld

/-- **Agreement** of two ends, where the key data of message 3 is not misread. -/
theorem agree_of_not_misread (h : Ready x) (hk : k.Served) {mem : Nat → Byte}
    (hmem : (k.on .pair3).keyData = some mem) (hnot : ¬ KeyDataMisread x mem) : Agree c x k := by
  obtain ⟨x₁, fx₁, msg1, x₂, fx₂, x₃, fx₃, h₁, hs₁, h₂, hs₂, h₃, hs₃, hkeyed, hkeeps⟩ :=
    h.reaches_msg3 (c := c) hk
  have hserved := hk.2
  obtain ⟨x₄, fx₄, h₄, hs₄, hconfirmed, hkeeps₄⟩ := hkeyed.takesMsg3 (c := c)
    (k.on .pair2).txTsc hmem ((hserved .pair3).2 _) fun hm => hnot ((hkeeps.misread mem).mp hm)
  have hall := hkeeps.trans hkeeps₄
  unfold Agree
  rw [← hall.groupKey, ← hall.keyIdx]
  cases hmode : x₄.auth.authMode.isWpa2 with
  | true =>
    obtain ⟨x₅, fx₅, h₅, hmode₅, hptk, hsupp⟩ :=
      hconfirmed.takesMsg4 (c := c) (hserved .pair4).1
    refine ⟨x₅, ?_, hptk, ?_⟩
    · simp only [exchange, h₁, hs₁, h₂, hs₂, h₃, hs₃, h₄, hs₄, h₅, bind_eq_bind,
        bind_some, hmode₅, hmode, if_true]
      rfl
    · rw [hsupp]
      exact hconfirmed.held hmode
  | false =>
    obtain ⟨x₅, fx₅, h₅, hs₅, hgroup, hkeeps₅⟩ :=
      hconfirmed.takesMsg4_wpa (c := c) (hserved .pair4).1 ((hserved .pair4).2 _) hmode
    obtain ⟨y, hy, hptk, hholds⟩ := hgroup.groupExchange (c := c) hk (k.on .pair4).txTsc
    refine ⟨y, ?_, hptk, ?_⟩
    · simp only [exchange, h₁, hs₁, h₂, hs₂, h₃, hs₃, h₄, hs₄, h₅, hs₅, bind_eq_bind,
        bind_some, hgroup.wpa1, Bool.false_eq_true, if_false]
      exact hy
    · rw [← hkeeps₅.groupKey, ← hkeeps₅.keyIdx]
      exact hholds

theorem not_agree_of_misread (h : Ready x) (hk : k.Served) {mem : Nat → Byte}
    (hmem : (k.on .pair3).keyData = some mem) (hmis : KeyDataMisread x mem) : ¬ Agree c x k := by
  obtain ⟨x₁, fx₁, msg1, x₂, fx₂, x₃, fx₃, h₁, hs₁, h₂, hs₂, h₃, hs₃, hkeyed, hkeeps⟩ :=
    h.reaches_msg3 (c := c) hk
  have h₄ := hkeyed.not_takesMsg3 (c := c) (k.on .pair2).txTsc hmem
    ((hkeeps.misread mem).mpr hmis)
  rintro ⟨y, hy, -⟩
  simp only [exchange, h₁, hs₁, h₂, hs₂, h₃, hs₃, h₄, bind_eq_bind, bind_some, bind_none] at hy
  cases hy

end

/-- **The handshakes agree exactly when the key data of message 3 is not misread**: every check of
    both sides passes, both ends have the same PTK, and the supplicant has the group key under its
    index. -/
theorem handshake_agree_iff {x : Ends} {k : Calls} (h : Ready x) (hk : k.Served)
    {mem : Nat → Byte} (hmem : (k.on .pair3).keyData = some mem) :
    Agree c x k ↔ ¬ KeyDataMisread x mem :=
  ⟨fun hagree hmis => not_agree_of_misread h hk hmem hmis hagree, agree_of_not_misread h hk hmem⟩

/-! ## Two ends at home -/

/-- The AP at home and a client link to it. -/
def homeEnds : Ends where
  bss := ⟨homeBss, true, false⟩
  auth := homeStation 0x001018000002 .wpa2Psk
  supp := { noApCli with
    currentAddress := 0x001018000002
    pmk := homeBss.pmk
    groupCipher := .aes
    rsnIe := homeBss.rsnIe }
  link := { homeStation homeBss.bssid .wpa2Psk with kind := .apcli }

/-- Calls that find memory, with what is in it. -/
def homeCalls (mem : Nat → Byte) : Calls where
  start := homeEnv 1
  on := fun _ => { homeEnv 2 with keyData := some mem }

theorem homeEnds_paired : Paired homeEnds := by
  constructor <;> decide

theorem homeEnds_ready : Ready homeEnds := by
  refine ⟨homeEnds_paired, ?_, ?_, ?_, ?_, ?_, ?_⟩ <;> decide

theorem homeCalls_served (mem : Nat → Byte) : (homeCalls mem).Served :=
  ⟨fun _ => rfl, fun _ => ⟨rfl, fun _ => rfl⟩⟩

/-- Where the memory is zero, the ends at home agree. -/
theorem handshake_agree_zero_memory :
    ¬ KeyDataMisread homeEnds (fun _ => 0) ∧ ∀ c, Agree c homeEnds (homeCalls fun _ => 0) := by
  have hnot : ¬ KeyDataMisread homeEnds fun _ => 0 := by
    rintro ⟨-, -, hreads⟩
    rcases hreads with ⟨-, -, h, -⟩ | ⟨-, h, -⟩
    · exact absurd h (by decide)
    · exact absurd h (by decide)
  exact ⟨hnot, fun c => (handshake_agree_iff c homeEnds_ready (homeCalls_served _) rfl).mpr hnot⟩

/-- Memory in which the header of a group key stands behind 48 bytes. -/
def staleMemory (i : Nat) : Byte :=
  if i = 49 then 0x0f else if i = 50 then 0xac else if i = 51 then 0x01 else 0

/-- With what an earlier group key has left behind 48 bytes, the same ends do not agree. -/
theorem stale_memory_breaks_handshake : Ready homeEnds ∧ (homeCalls staleMemory).Served ∧
      ∀ c, ¬ Agree c homeEnds (homeCalls staleMemory) := by
  refine ⟨homeEnds_ready, homeCalls_served _, fun c => ?_⟩
  refine not_agree_of_misread homeEnds_ready (homeCalls_served _) rfl ⟨rfl, rfl, .inl ?_⟩
  exact ⟨rfl, rfl, rfl, rfl, rfl⟩

end RalinkSdk.Wpa
