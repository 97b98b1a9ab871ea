import RalinkSdk.Wpa.Handshake

/-!
# The dispatcher of EAPOL-Key frames

The part of the adapter that the handshakes of all stations share, `WpaEAPOLKeyAction` with every
handler it calls, and the other calls that start a handshake or deliver a master key.

## Conventions

- The MAC table is a function of the address.  What a step does besides changing the adapter is
  given for each address.
- The index of an entry's BSS is one of the array `MBSSID`, and there is one client link.
- Both group ciphers of WEP are `other`.

## Source

`common/cmm_wpa.c`, `ap/ap_wpa.c`, `ap/ap_cfg.c`,
`ap/ap_assoc.c`.
-/

namespace RalinkSdk.Wpa

open Lib Crypt Function Option

/-! ## The MAC table -/

/-- The MAC table: every entry is found under its own address. -/
structure MacTab where
  entry : MacAddr → Option Entry
  addr_eq : ∀ a e, entry a = some e → e.addr = a

namespace MacTab

/-- Write an entry back. -/
def set (t : MacTab) (e : Entry) : MacTab where
  entry := update t.entry e.addr (some e)
  addr_eq := by
    intro a x hx
    rcases eq_or_ne a e.addr with rfl | ha
    · rw [update_self] at hx
      exact congrArg Entry.addr (Option.some.inj hx).symm
    · rw [update_of_ne ha] at hx
      exact t.addr_eq a x hx

/-- Change every entry, but not its address. -/
def map (t : MacTab) (g : Entry → Entry) (hg : ∀ e, (g e).addr = e.addr) : MacTab where
  entry a := (t.entry a).map g
  addr_eq := by
    intro a x hx
    obtain ⟨e, he, rfl⟩ := map_eq_some_iff.mp hx
    rw [hg, t.addr_eq a e he]

/-- The table of a list of entries. -/
def ofList (entries : List Entry) : MacTab where
  entry a := entries.find? fun e => e.addr = a
  addr_eq := by
    intro a x hx
    simpa using List.find?_some hx

/-- Drop the entries that are not wanted. -/
def filter (t : MacTab) (keep : Entry → Bool) : MacTab where
  entry a := (t.entry a).filter keep
  addr_eq := by
    intro a x hx
    exact t.addr_eq a x (filter_eq_some_iff.mp hx).1

@[simp] theorem set_entry_self (t : MacTab) (e : Entry) : (t.set e).entry e.addr = some e :=
  update_self ..

theorem set_entry_of_ne (t : MacTab) (e : Entry) {a : MacAddr} (h : a ≠ e.addr) :
    (t.set e).entry a = t.entry a :=
  update_of_ne h ..

end MacTab

/-! ## The adapter -/

/-- The parts of the `RTMP_ADAPTER` that the handshakes use. -/
structure Adapter where
  mbss : Nat → Mbss
  bssidNum : Nat
  /-- the adapter is being reset or halted -/
  resetting : Bool
  macTab : MacTab
  apCli : Supplicant
  micFailureCounter : BitVec 32
  cmTimerRunning : Bool
  banClass3Data : Bool

/-- An adapter and what was done for each address. -/
abbrev Outcome := Adapter × (MacAddr → List Effect)

namespace Adapter

def bssOf (ad : Adapter) (e : Entry) : Bss :=
  ⟨ad.mbss e.apidx, e.apidx < ad.bssidNum, ad.resetting⟩

/-- Nothing is done. -/
def quiet (ad : Adapter) : Outcome := (ad, fun _ => [])

/-- An entry is written back. -/
def put (ad : Adapter) (e : Entry) (effects : List Effect) : Outcome :=
  ({ ad with macTab := ad.macTab.set e }, fun a => if a = e.addr then effects else [])

/-- An entry and its BSS are written back. -/
def putBss (ad : Adapter) (m : Mbss) (e : Entry) (effects : List Effect) : Outcome :=
  ({ ad with mbss := update ad.mbss e.apidx m }).put e effects

/-- An entry and the client link are written back. -/
def putApCli (ad : Adapter) (s : Supplicant) (e : Entry) (effects : List Effect) : Outcome :=
  ({ ad with apCli := s }).put e effects

end Adapter

variable (c : Crypto)

/-! ## Countermeasures -/

/-- `MlmeDeAuthAction` takes the entry out of the MAC table, if there is memory for the frame. -/
def deAuthClients (t : MacTab) (env : Env) : MacTab :=
  t.filter fun e => e.kind ≠ .client || env.mpool e.addr = false

def handleCounterMeasure (ad : Adapter) (e : Entry) (env : Env) : Adapter :=
  if e.kind = .apcli then ad
  else if e.wpaState.num < WpaState.ptkInitDone.num ∨ e.gtkState ≠ .established then ad
  else
    let ad := { ad with
      macTab := ad.macTab.set { e with cmTimerRunning := true }
      micFailureCounter := ad.micFailureCounter + 1 }
    if ad.cmTimerRunning then
      { ad with
        mbss := update ad.mbss e.apidx { ad.mbss e.apidx with gNonce := env.rand }
        macTab := deAuthClients ad.macTab env
        banClass3Data := true }
    else { ad with cmTimerRunning := true }

/-! ## Requests for new keys -/

def wpaInstallSharedKey (groupCipher : WepStatus) (gtk : List Byte) : CipherKey :=
  match groupCipher with
  | .tkip => ⟨16, .tkip, gtk.take 16, (gtk.drop 16).take 8, (gtk.drop 24).take 8⟩
  | .aes => ⟨16, .aes, gtk.take 16, [], []⟩
  | .other => .zero

def newGroupKey (m : Mbss) (env : Env) : Mbss :=
  let gtk := wpaDeriveGTK c m.gmk env.rand m.bssid
  let defaultKeyId := if m.defaultKeyId = 1 then 2 else 1
  { m with
    gNonce := env.rand
    defaultKeyId := defaultKeyId
    gtk := gtk
    sharedKey := update m.sharedKey defaultKeyId (wpaInstallSharedKey m.groupCipher gtk) }

/-- The group handshake is started with a station of the BSS that has its pairwise key. -/
def restartGroupHS (b : Bss) (apidx : Nat) (e : Entry) (env : Env) : Entry × List Effect :=
  if e.kind = .client ∧ e.wpaState = .ptkInitDone ∧ e.apidx = apidx then
    wpaStart2WayGroupHS c b { e with gtkState := .negotiating } env
  else (e, [])

theorem restartGroupHS_eq (b : Bss) (apidx : Nat) (e : Entry) (env : Env) : ∃ gtkState rCounter,
      (restartGroupHS c b apidx e env).1 = { e with gtkState := gtkState, rCounter := rCounter } := by
  unfold restartGroupHS wpaStart2WayGroupHS
  split_ifs <;> exact ⟨_, _, rfl⟩

theorem restartGroupHS_addr (b : Bss) (apidx : Nat) (e : Entry) (env : Env) :
    (restartGroupHS c b apidx e env).1.addr = e.addr := by
  obtain ⟨gtkState, rCounter, h⟩ := restartGroupHS_eq c b apidx e env
  rw [h]

def requestGroupKey (ad : Adapter) (e : Entry) (env : Env) : Outcome :=
  let m := newGroupKey c (ad.mbss e.apidx) env
  let b : Bss := ⟨m, e.apidx < ad.bssidNum, ad.resetting⟩
  ({ ad with
      mbss := update ad.mbss e.apidx m
      macTab := ad.macTab.map (fun x => (restartGroupHS c b e.apidx x env).1)
        fun x => restartGroupHS_addr c b e.apidx x env },
    fun a =>
      match ad.macTab.entry a with
      | none => []
      | some x => (restartGroupHS c b e.apidx x env).2)

/-- The entry as it stands before the handshake that a request starts. -/
def clearedEntry (e : Entry) : Entry :=
  { e with
    pairwiseKey := .zero
    asicKey := none
    wpaState :=
      if e.authMode = .wpa ∨ e.authMode = .wpa2 then .initPmk
      else if e.authMode = .wpaPsk ∨ e.authMode = .wpa2Psk then .initPsk
      else e.wpaState
    gtkState := .negotiating
    acceptAll := false
    portSecured := false
    rCounter := 0 }

/-- `WPAStart4WayHS` for a station of the adapter. -/
def start4WayHS (ad : Adapter) (e : Entry) (env : Env) : Outcome :=
  let (m, e', effects) := wpaStart4WayHS c (ad.bssOf e) e env
  ad.putBss m e' effects

/-! ## `WpaEAPOLKeyAction` -/

/-- What a frame asks for. -/
inductive Action where
  | pairMsg1 | pairMsg2 | pairMsg3 | pairMsg4 | groupMsg1 | groupMsg2
  | counterMeasure | groupKeyRequest | pairwiseKeyRequest
deriving DecidableEq, Repr

/-- The branch that a frame takes, by its key information and the length of its key data. -/
def actionOf (p : EapolPacket) : Option Action :=
  let k := p.keyInfo
  if k.keyAck then
    if k.secure = false ∧ k.request = false ∧ k.error = false ∧ k.keyType then
      if k.keyMic = false then some .pairMsg1 else some .pairMsg3
    else if k.secure ∧ k.keyMic ∧ k.request = false ∧ k.error = false then
      if k.keyType then some .pairMsg3 else some .groupMsg1
    else none
  else if k.keyMic ∧ k.request ∧ k.error then some .counterMeasure
  else if k.request = false ∧ k.error = false ∧ k.keyMic then
    if k.secure = false ∧ k.keyType then
      if p.keyDataLen = 0 then some .pairMsg4 else some .pairMsg2
    else if k.secure ∧ k.keyType then some .pairMsg4
    else if k.secure ∧ k.keyType = false then some .groupMsg2
    else none
  else if k.request ∧ k.error = false then
    if k.keyType then some .pairwiseKeyRequest else some .groupKeyRequest
  else none

/-- The checks in front of the branches.  The length that is left is computed without a sign. -/
def admitted (e : Entry) (f : Elem) : Bool :=
  let p := f.packet
  (e.kind = .client || e.kind = .apcli) && e.authMode.isWpa &&
    p.bodyLen.toNat + 4 ≤ (f.msgLen + 2 ^ 32 - headerLen) % 2 ^ 32 &&
    (p.proVer = 1 || p.proVer = 2) && (p.type = 0xfe || p.type = 0x02) &&
    !(e.wepStatus = .tkip && p.keyInfo.keyDescVer ≠ keyDescTkip) &&
    !(e.wepStatus = .aes && p.keyInfo.keyDescVer ≠ keyDescAes) &&
    e.assoc && WpaState.initPsk.num ≤ e.wpaState.num

/-- The branches of `WpaEAPOLKeyAction`.  The handlers of a supplicant leave at once when the entry
    is none of a client link. -/
def runAction (ad : Adapter) (e : Entry) (f : Elem) (env : Env) : Action → Outcome
  | .pairMsg1 =>
    if e.kind ≠ .apcli then ad.quiet
    else
      let (e', effects) := peerPairMsg1Action c ad.apCli e f env
      ad.put e' effects
  | .pairMsg2 =>
    let (e', effects) := peerPairMsg2Action c (ad.bssOf e) e f env
    ad.put e' effects
  | .pairMsg3 =>
    if e.kind ≠ .apcli then ad.quiet
    else
      let (s, e', effects) := peerPairMsg3Action c ad.apCli e f env
      ad.putApCli s e' effects
  | .pairMsg4 =>
    let (m, e', effects) := peerPairMsg4Action c (ad.bssOf e) e f env
    ad.putBss m e' effects
  | .groupMsg1 =>
    if e.kind ≠ .apcli then ad.quiet
    else
      let (s, e', effects) := peerGroupMsg1Action c ad.apCli e f env
      ad.putApCli s e' effects
  | .groupMsg2 =>
    let (e', effects) := peerGroupMsg2Action c (ad.bssOf e) e f env
    ad.put e' effects
  | .counterMeasure => (handleCounterMeasure ad e env).quiet
  | .groupKeyRequest => requestGroupKey c ad e env
  | .pairwiseKeyRequest => start4WayHS c ad (clearedEntry e) env

def wpaEAPOLKeyAction (ad : Adapter) (f : Elem) (env : Env) : Outcome :=
  match ad.macTab.entry f.addr2 with
  | none => ad.quiet
  | some e =>
    if admitted e f = false then ad.quiet
    else
      match actionOf f.packet with
      | none => ad.quiet
      | some action => runAction c ad e f env action

theorem wpaEAPOLKeyAction_of_admitted {ad : Adapter} {f : Elem} {e : Entry} {action : Action}
    (he : ad.macTab.entry f.addr2 = some e) (hadm : admitted e f = true)
    (haction : actionOf f.packet = some action) (env : Env) :
    wpaEAPOLKeyAction c ad f env = runAction c ad e f env action := by
  simp only [wpaEAPOLKeyAction, he, hadm, haction, Bool.true_eq_false, if_false]

/-! ## The other calls -/

/-- The stations for which `WpaEAPOLStartAction` starts a handshake. -/
def eapolStartOk (e : Entry) : Bool :=
  e.portSecured = false && e.wpaState.num < WpaState.ptkStart.num &&
    (e.authMode = .wpaPsk || e.authMode = .wpa2Psk ||
      (e.authMode = .wpa2 && e.pmkidCacheIdx.isSome))

def wpaEAPOLStartAction (ad : Adapter) (a : MacAddr) (env : Env) : Outcome :=
  match ad.macTab.entry a with
  | none => ad.quiet
  | some e =>
    if eapolStartOk e then
      start4WayHS c ad { e with acceptAll := false, wpaState := .initPsk, rCounter := 0 } env
    else ad.quiet

def wpaSendSuccess (ad : Adapter) (a : MacAddr) (env : Env) : Outcome :=
  match ad.macTab.entry a with
  | none => ad.quiet
  | some e =>
    if e.authMode.isWpa ∧ e.assoc then
      start4WayHS c ad { e with wpaState := .initPmk } env
    else ad.quiet

def wpaSendRequest (ad : Adapter) (a : MacAddr) : Outcome :=
  match ad.macTab.entry a with
  | none => ad.quiet
  | some e =>
    if WpaState.ptkInitDone.num ≤ e.wpaState.num then
      ad.put { e with wpaState := .authentication } []
    else ad.quiet

/-- The first message of either handshake is sent again by `WPARetryExec`. -/
def wpaRetryExec (ad : Adapter) (a : MacAddr) (group : Bool) (env : Env) : Outcome :=
  match ad.macTab.entry a with
  | none => ad.quiet
  | some e =>
    if e.kind ≠ .client then ad.quiet
    else if group then
      if e.gtkState = .negotiating then
        let (e', effects) := wpaStart2WayGroupHS c (ad.bssOf e) e env
        ad.put e' effects
      else ad.quiet
    else start4WayHS c ad e env

def keyTaken (ad : Adapter) (apidx : Nat) (a : MacAddr) (keyMaterial : List Byte) : Bool :=
  (ad.mbss apidx).authMode.isWpa && (keyMaterial.length = 32 || keyMaterial.length = 64) &&
    (ad.macTab.entry a).isSome

def rtmpIoctlAddWPAKey (ad : Adapter) (apidx : Nat) (a : MacAddr) (keyMaterial : List Byte) :
    Adapter :=
  if keyTaken ad apidx a keyMaterial then
    { ad with mbss :=
        update ad.mbss apidx { ad.mbss apidx with pmk := keyMaterial.take 32 } }
  else ad

/-- The slot of the station in the PMKID cache, if it has the PMKID. -/
def pmkidMatch (m : Mbss) (e : Entry) (pmkid : BitVec 128) : Option (Fin maxPmkidCount) :=
  (rtmpSearchPMKIDCache m e.addr).filter fun i => (m.pmkidCache i).pmkid = pmkid

/-- The PMKID in an association request is looked up. -/
def assocPmkid (ad : Adapter) (a : MacAddr) (pmkid : BitVec 128) : Adapter :=
  match ad.macTab.entry a with
  | none => ad
  | some e =>
    if e.authMode = .wpa2 then
      { ad with macTab :=
          ad.macTab.set { e with pmkidCacheIdx := pmkidMatch (ad.mbss e.apidx) e pmkid } }
    else ad

/-! ## Events -/

/-- What happens to the adapter. -/
inductive Event where
  | eapolKey (f : Elem) (env : Env)
  | eapolStart (a : MacAddr) (env : Env)
  | eapSuccess (a : MacAddr) (env : Env)
  | eapRequest (a : MacAddr)
  | retry (a : MacAddr) (group : Bool) (env : Env)
  | addWPAKey (apidx : Nat) (a : MacAddr) (keyMaterial : List Byte)
  | assocPmkid (a : MacAddr) (pmkid : BitVec 128)

/-- One event. -/
def step (ad : Adapter) : Event → Outcome
  | .eapolKey f env => wpaEAPOLKeyAction c ad f env
  | .eapolStart a env => wpaEAPOLStartAction c ad a env
  | .eapSuccess a env => wpaSendSuccess c ad a env
  | .eapRequest a => wpaSendRequest ad a
  | .retry a group env => wpaRetryExec c ad a group env
  | .addWPAKey apidx a keyMaterial => (rtmpIoctlAddWPAKey ad apidx a keyMaterial).quiet
  | .assocPmkid a pmkid => (assocPmkid ad a pmkid).quiet

theorem atEntry {M : Outcome → Prop} {ad : Adapter} {a : MacAddr} {f : Entry → Outcome}
    (hquiet : M ad.quiet) (hf : ∀ e, ad.macTab.entry a = some e → e.addr = a → M (f e)) :
    M (match ad.macTab.entry a with
      | none => ad.quiet
      | some e => f e) := by
  cases he : ad.macTab.entry a with
  | none => exact hquiet
  | some e => exact hf e he (ad.macTab.addr_eq a e he)

/-! ## A small network -/

/-- A BSS for WPA2-PSK with AES. -/
def homeBss : Mbss where
  bssid := 0x001018000001
  pmk := List.replicate 32 0x5a
  gmk := List.replicate 32 0x3c
  gNonce := 0
  gtk := List.replicate 32 0x77
  defaultKeyId := 1
  groupCipher := .aes
  authMode := .wpa2Psk
  rsnIe := [1, 0, 0x00, 0x0f, 0xac, 4, 1, 0, 0x00, 0x0f, 0xac, 4, 1, 0, 0x00, 0x0f, 0xac, 2, 0, 0]
  rsnIe2 := []
  sharedKey := fun _ => .zero
  pmkidCache := fun _ => ⟨false, 0, 0, 0, []⟩
  wscEntry := none

def homeStation (a : MacAddr) (authMode : AuthMode) : Entry where
  addr := a
  kind := .client
  assoc := true
  authMode := authMode
  wepStatus := .aes
  apidx := 0
  wpaState := .initPsk
  gtkState := .negotiating
  portSecured := false
  acceptAll := false
  rCounter := 0
  aNonce := 0
  sNonce := 0
  ptk := []
  pairwiseKey := .zero
  asicKey := none
  pmkidCacheIdx := none
  cmTimerRunning := false

/-- The client link, not in use. -/
def noApCli : Supplicant := ⟨0, [], .other, [], [], 0, fun _ => .zero⟩

/-- An access point with one BSS. -/
def homeAdapter (m : Mbss) (entries : List Entry) : Adapter where
  mbss := fun _ => m
  bssidNum := 1
  resetting := false
  macTab := .ofList entries
  apCli := noApCli
  micFailureCounter := 0
  cmTimerRunning := false
  banClass3Data := false

/-- A call that finds memory, with its random number. -/
def homeEnv (rand : Nonce) : Env := ⟨rand, some fun _ => 0, fun _ => true, 0, 0⟩

end RalinkSdk.Wpa
