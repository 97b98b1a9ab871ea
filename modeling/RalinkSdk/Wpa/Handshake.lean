import RalinkSdk.Wpa.Eapol

/-!
# The WPA handshakes of the driver

The entry of a peer in the MAC table, the settings of the BSS and of the client link, and the
functions of `common/cmm_wpa.c` that start a handshake or answer an EAPOL-Key frame.

## Conventions

- A handler gives the new state and the list of what it did besides: frames sent, keys derived
  and installed, an overflow of a buffer.
- `client` is an entry whose peer is authenticated here, `apcli` one whose peer authenticates us:
  the AP of a client link, or of the station in the driver for stations.
- Each call takes what it cannot know: a random number, whether memory is there, and what was in
  that memory before.
- The driver is built without `QOS_DLS_SUPPORT`.  Timers, retry counters, wireless events and
  debug output are left out.

## Source

`common/cmm_wpa.c`, `ap/ap_wpa.c`, `ap/ap_apcli.c`.
-/

namespace RalinkSdk.Wpa

open Lib Crypt List

/-! ## State -/

inductive WpaState where
  | notUse | disconnect | disconnected | initial | authentication | authentication2 | initPmk
  | initPsk | ptkStart | ptkInitNegotiating | ptkInitDone | updateKeys | integrityFailure
  | keyUpdate
deriving DecidableEq, Repr

def WpaState.num : WpaState → Nat
  | .notUse => 0
  | .disconnect => 1
  | .disconnected => 2
  | .initial => 3
  | .authentication => 4
  | .authentication2 => 5
  | .initPmk => 6
  | .initPsk => 7
  | .ptkStart => 8
  | .ptkInitNegotiating => 9
  | .ptkInitDone => 10
  | .updateKeys => 11
  | .integrityFailure => 12
  | .keyUpdate => 13

inductive GtkState where
  | negotiating
  | established
deriving DecidableEq, Repr

inductive EntryKind where
  | client | apcli | other
deriving DecidableEq, Repr

/-- `CIPHER_KEY`; `alg` is `other` for `CIPHER_NONE`. -/
structure CipherKey where
  keyLen : Nat
  alg : WepStatus
  key : List Byte
  txMic : List Byte
  rxMic : List Byte
deriving DecidableEq

def CipherKey.zero : CipherKey := ⟨0, .other, [], [], []⟩

abbrev maxPmkidCount : Nat := 8

/-- The fields of a `MAC_TABLE_ENTRY` that the handshakes use. -/
structure Entry where
  addr : MacAddr
  kind : EntryKind
  /-- `Sst == SST_ASSOC` -/
  assoc : Bool
  authMode : AuthMode
  wepStatus : WepStatus
  apidx : Nat
  wpaState : WpaState
  gtkState : GtkState
  portSecured : Bool
  /-- `PrivacyFilter == Ndis802_11PrivFilterAcceptAll` -/
  acceptAll : Bool
  rCounter : BitVec 64
  aNonce : Nonce
  sNonce : Nonce
  ptk : List Byte
  pairwiseKey : CipherKey
  /-- the key of this entry in the ASIC -/
  asicKey : Option CipherKey
  pmkidCacheIdx : Option (Fin maxPmkidCount)
  cmTimerRunning : Bool
deriving DecidableEq

structure CacheSlot where
  valid : Bool
  mac : MacAddr
  refreshTime : Nat
  pmkid : BitVec 128
  pmk : List Byte
deriving DecidableEq

/-- The fields of a `MULTISSID_STRUCT` that the handshakes use. -/
structure Mbss where
  bssid : MacAddr
  pmk : List Byte
  gmk : List Byte
  gNonce : Nonce
  gtk : List Byte
  defaultKeyId : Nat
  groupCipher : WepStatus
  authMode : AuthMode
  rsnIe : List Byte
  /-- the second element of a BSS for WPA and WPA2 -/
  rsnIe2 : List Byte
  sharedKey : Nat → CipherKey
  pmkidCache : Fin maxPmkidCount → CacheSlot
  /-- the station with which a WSC exchange is running -/
  wscEntry : Option MacAddr

/-- The client link: an `APCLI_STRUCT`, or the fields of `StaCfg`. -/
structure Supplicant where
  currentAddress : MacAddr
  pmk : List Byte
  groupCipher : WepStatus
  rsnIe : List Byte
  gtk : List Byte
  defaultKeyId : Nat
  sharedKey : Nat → CipherKey

/-- What a handler did besides changing the state. -/
inductive Effect where
  | sent (p : EapolPacket)
  | derived (pmk : List Byte) (aNonce sNonce : Nonce)
  | installed (key : CipherKey)
  | cached (addr : MacAddr) (pmk : List Byte)
  | loaded (apidx : Nat) (pmk : List Byte)
  | overflow
deriving DecidableEq

/-- What a call finds. -/
structure Env where
  /-- `GenRandom` -/
  rand : Nonce
  /-- the memory for `KEYDATA` with what is in it, if there is some -/
  keyData : Option (Nat → Byte)
  /-- there is memory for a frame to the peer -/
  mpool : MacAddr → Bool
  /-- `RTMPGetTxTscFromAsic` -/
  txTsc : BitVec 48
  /-- `NdisGetSystemUpTime` -/
  now : Nat

/-- An EAPOL-Key frame in a `MLME_QUEUE_ELEM`. -/
structure Elem where
  addr2 : MacAddr
  msgLen : Nat
  packet : EapolPacket

variable (c : Crypto)

/-! ## Installing keys -/

/-- The message for a peer, built from its entry. -/
def msgParams (e : Entry) (groupCipher : WepStatus) (msgType : MsgType) : MsgParams where
  msgType := msgType
  wpa2 := e.authMode.isWpa2
  wepStatus := e.wepStatus
  groupCipher := groupCipher
  rCounter := e.rCounter
  ptk := e.ptk
  defaultKeyIdx := 0
  keyNonce := 0
  txRsc := 0
  gtk := []
  rsnIe := []

/-- The key of `WPAInstallPairwiseKey`, `none` for a cipher that it refuses. -/
def pairwiseKeyOf (e : Entry) (bAE : Bool) : Option CipherKey :=
  let mic1 := (e.ptk.drop 48).take 8
  let mic2 := (e.ptk.drop 56).take 8
  match e.wepStatus with
  | .tkip => some ⟨16, .tkip, (e.ptk.drop 32).take 16, if bAE then mic1 else mic2,
      if bAE then mic2 else mic1⟩
  | .aes => some ⟨16, .aes, (e.ptk.drop 32).take 16, [], []⟩
  | .other => none

/-- `WPAInstallPairwiseKey`: the key goes to the ASIC and the packet number starts again. -/
def wpaInstallPairwiseKey (e : Entry) (bAE : Bool) : Entry × List Effect :=
  match pairwiseKeyOf e bAE with
  | none => ({ e with pairwiseKey := .zero }, [])
  | some key => ({ e with pairwiseKey := key, asicKey := some key }, [.installed key])

def apCliInstallSharedKey (s : Supplicant) (key : List Byte) (keyLen defaultKeyIdx : Nat) :
    Option Supplicant :=
  let install (len : Nat) : Supplicant := { s with
    gtk := key.take len
    defaultKeyId := defaultKeyIdx
    sharedKey := Function.update s.sharedKey defaultKeyIdx
      ⟨len, s.groupCipher, key.take 16, if len = 32 then (key.drop 24).take 8 else [],
        if len = 32 then (key.drop 16).take 8 else []⟩ }
  match s.groupCipher with
  | .tkip => if 32 ≤ keyLen then some (install 32) else none
  | .aes => if 16 ≤ keyLen then some (install 16) else none
  | .other => none

/-! ## Key data -/

/-- What is done with the group key that was received. -/
inductive KeyDataResult where
  | refused
  | overflow
  | accepted (s : Supplicant)

/-- The last GTK element of a list of key data elements. -/
inductive KdeScan where
  | refused
  | overflow
  | found (gtk : List Byte) (gtkLen defaultIdx : Nat)

/-- The bytes of memory from `i` on. -/
def bytesAt (mem : Nat → Byte) (i n : Nat) : List Byte := (List.range n).map fun k => mem (i + k)

/-- The loop of `RTMPParseEapolKeyData` over the elements of the key data.  `GTK` has room for 32
    bytes. -/
def scanKde (mem : Nat → Byte) (keyDataLength : Nat) : Nat → Nat → KdeScan → KdeScan
  | 0, _, acc => acc
  | fuel + 1, skipOffset, acc =>
    let len := (mem (skipOffset + 1)).toNat
    if skipOffset + 2 + len ≤ keyDataLength then
      if mem skipOffset = 0xdd ∧ bytesAt mem (skipOffset + 2) 3 = [0x00, 0x0f, 0xac] ∧
          mem (skipOffset + 5) = 0x01 then
        let gtkLen := (len + 256 - 6) % 256
        if gtkLen < 5 then .refused
        else if 32 < gtkLen then .overflow
        else scanKde mem keyDataLength fuel (skipOffset + 2 + len)
          (.found (bytesAt mem (skipOffset + 8) gtkLen) gtkLen ((mem (skipOffset + 6)).toNat % 4))
      else scanKde mem keyDataLength fuel (skipOffset + 2 + len) acc
    else acc

def rtmpParseEapolKeyData (s : Supplicant) (mem : Nat → Byte) (keyDataLen groupKeyIndex : Nat)
    (wpa2 : Bool) : KeyDataResult :=
  let keyDataLength := keyDataLen % 256
  let scan :=
    if wpa2 then scanKde mem keyDataLength (keyDataLength + 1) 0 (.found [] 0 0)
    else if 32 < keyDataLength then .overflow
    else .found (bytesAt mem 0 keyDataLength) keyDataLength groupKeyIndex
  match scan with
  | .refused => .refused
  | .overflow => .overflow
  | .found gtk gtkLen defaultIdx =>
    if 3 < defaultIdx then .refused
    else
      match apCliInstallSharedKey s gtk gtkLen defaultIdx with
      | none => .refused
      | some s => .accepted s

/-- Memory with a text at its start. -/
def memWith (text : List Byte) (mem : Nat → Byte) : Nat → Byte := fun i =>
  if i < text.length then text.getD i 0 else mem i

/-! ## `PeerWpaMessageSanity` -/

/-- The check of the replay counter. -/
def replayOk (e : Entry) (msgType : MsgType) (p : EapolPacket) : Bool :=
  if msgType.forSupplicant then e.rCounter < p.replayCounter || p.replayCounter = 0
  else p.replayCounter = e.rCounter

def micOk (ptk : List Byte) (p : EapolPacket) : Bool :=
  let p' := { p with keyMic := 0 }
  p.keyMic =
    if p.keyInfo.keyDescVer = keyDescTkip ∨ p.keyInfo.keyDescVer = keyDescAes then
      eapolMic c p.keyInfo.keyDescVer ptk p'
    else 0

theorem micOk_constructEapolMsg (m : MsgParams) (h : m.msgType ≠ .pair1) :
    micOk c m.ptk (constructEapolMsg c m) = true := by
  have hver : (constructEapolMsg c m).keyInfo.keyDescVer =
      keyDescVerOf m.wepStatus m.groupCipher := by
    rw [constructEapolMsg_keyInfo]
    rfl
  unfold micOk
  dsimp only
  rw [hver, if_pos (keyDescVerOf_cases _ _), decide_eq_true_eq]
  exact constructEapolMsg_keyMic c m h

/-- The checks that `PeerWpaMessageSanity` makes for every message: memory, replay counter, MIC
    except in the first message. -/
def messageOk (e : Entry) (msgType : MsgType) (p : EapolPacket) (env : Env) : Bool :=
  env.keyData.isSome && replayOk e msgType p && (msgType = .pair1 || micOk c e.ptk p)

def decryptKeyData (e : Entry) (p : EapolPacket) : List Byte :=
  let keyData := p.keyData.take p.keyDataLen.toNat
  if p.keyInfo.keyDescVer = keyDescAes then aesKeyUnwrap (c.aesDecrypt (kek e.ptk)) keyData
  else tkipGtkKeyWrap (kek e.ptk) (beBytes 16 p.keyIv) keyData

/-- `PeerWpaMessageSanity` for the messages 3 of the 4-way and 1 of the group handshake, with the
    group key it installs on the way.  The other messages have no key data that counts. -/
def supplicantSanity (s : Supplicant) (e : Entry) (msgType : MsgType) (p : EapolPacket)
    (env : Env) : KeyDataResult :=
  if messageOk c e msgType p env = false then .refused
  else if p.keyDataLen = 0 then .accepted s
  else if (msgType = .pair3 ∧ e.authMode.isWpa2) ∨ msgType = .group1 then
    let text := decryptKeyData c e p
    let groupKeyIndex :=
      if e.authMode.isWpa2 = false ∧ msgType = .group1 then p.keyInfo.keyIndex.toNat else 0
    rtmpParseEapolKeyData s (memWith text (env.keyData.getD fun _ => 0)) text.length groupKeyIndex
      e.authMode.isWpa2
  else .accepted s

/-! ## The supplicant -/

/-- `LENGTH_802_11 + LENGTH_802_1_H` -/
def headerLen : Nat := 24 + 8

/-- The shortest EAPOL-Key frame: headers, EAPOL header and descriptor. -/
def minMsgLen : Nat := headerLen + 4 + 95

def peerPairMsg1Action (s : Supplicant) (e : Entry) (f : Elem) (env : Env) :
    Entry × List Effect :=
  if f.msgLen < minMsgLen then (e, [])
  else if messageOk c e .pair1 f.packet env = false then (e, [])
  else
    let e := { e with
      rCounter := f.packet.replayCounter
      aNonce := f.packet.keyNonce
      sNonce := env.rand
      ptk := wpaDerivePTK c s.pmk f.packet.keyNonce e.addr env.rand s.currentAddress
      wpaState := .ptkInitNegotiating }
    let derived := Effect.derived s.pmk e.aNonce e.sNonce
    if env.mpool e.addr = false then (e, [derived])
    else
      let msg2 := constructEapolMsg c { msgParams e s.groupCipher .pair2 with
        keyNonce := e.sNonce
        rsnIe := s.rsnIe }
      (e, [derived, .sent msg2])

/-- `PeerPairMsg3Action`, from the point where the checks have passed. -/
def acceptPairMsg3 (s : Supplicant) (e : Entry) (p : EapolPacket) (env : Env) :
    Entry × List Effect :=
  let e := { e with rCounter := p.replayCounter }
  -- the nonce is checked after the replay counter is stored
  if e.aNonce ≠ p.keyNonce then (e, [])
  else if env.mpool e.addr = false then (e, [])
  else
    let msg4 := constructEapolMsg c (msgParams e s.groupCipher .pair4)
    let (e, installed) := wpaInstallPairwiseKey { e with wpaState := .ptkInitDone } false
    let e := if e.authMode.isWpa2 then { e with portSecured := true, acceptAll := true } else e
    (e, installed ++ [.sent msg4])

def peerPairMsg3Action (s : Supplicant) (e : Entry) (f : Elem) (env : Env) :
    Supplicant × Entry × List Effect :=
  if f.msgLen < minMsgLen then (s, e, [])
  else
    match supplicantSanity c s e .pair3 f.packet env with
    | .refused => (s, e, [])
    | .overflow => (s, e, [.overflow])
    | .accepted s => (s, acceptPairMsg3 c s e f.packet env)

def peerGroupMsg1Action (s : Supplicant) (e : Entry) (f : Elem) (env : Env) :
    Supplicant × Entry × List Effect :=
  match supplicantSanity c s e .group1 f.packet env with
  | .refused => (s, e, [])
  | .overflow => (s, e, [.overflow])
  | .accepted s' =>
    let e := { e with rCounter := f.packet.replayCounter }
    if env.mpool e.addr = false then (s', e, [])
    else
      -- the key index of the answer was read before the message was checked
      let msg2 := constructEapolMsg c { msgParams e s.groupCipher .group2 with
        defaultKeyIdx := s.defaultKeyId }
      (s', { e with portSecured := true, acceptAll := true }, [.sent msg2])

/-! ## The authenticator -/

def rtmpSearchPMKIDCache (m : Mbss) (addr : MacAddr) : Option (Fin maxPmkidCount) :=
  (finRange maxPmkidCount).find? fun i => (m.pmkidCache i).valid && (m.pmkidCache i).mac = addr

def fullCacheSlot (m : Mbss) : Fin maxPmkidCount :=
  ((finRange maxPmkidCount).foldl (fun (acc : Nat × Fin maxPmkidCount) i =>
    let slot := m.pmkidCache i
    if slot.valid ∧ ((acc.1 = 0 ∧ acc.2.val = 0) ∨ (acc.1 ≠ 0 ∧ acc.1 < slot.refreshTime)) then
      (slot.refreshTime, i)
    else acc) (0, ⟨0, Nat.succ_pos 7⟩)).2

/-- The slot that `RTMPAddPMKIDCache` writes: the one of the address, a free one, or the one that
    a full cache gives up. -/
def cacheSlotFor (m : Mbss) (addr : MacAddr) : Fin maxPmkidCount :=
  match rtmpSearchPMKIDCache m addr with
  | some i => i
  | none =>
    match (finRange maxPmkidCount).find? fun i => (m.pmkidCache i).valid = false with
    | some i => i
    | none => fullCacheSlot m

def rtmpAddPMKIDCache (m : Mbss) (addr : MacAddr) (pmkid : BitVec 128) (pmk : List Byte)
    (now : Nat) : Mbss :=
  { m with pmkidCache :=
      Function.update m.pmkidCache (cacheSlotFor m addr) ⟨true, addr, now, pmkid, pmk⟩ }

/-- The data behind the first message's descriptor when a cached key is used. -/
def withPmkidKde (p : EapolPacket) (pmkid : BitVec 128) : EapolPacket :=
  { p with
    keyData := [0xdd, 0x14, 0x00, 0x0f, 0xac, 0x04] ++ beBytes 16 pmkid
    keyDataLen := p.keyDataLen + 22
    bodyLen := p.bodyLen + 22 }

/-- What `WPAStart4WayHS` reads besides the entry. -/
structure Bss where
  mbss : Mbss
  /-- `pEntry->apidx < pAd->ApCfg.BssidNum` -/
  inRange : Bool
  /-- the adapter is being reset or halted -/
  resetting : Bool

def wpaStart4WayHS (b : Bss) (e : Entry) (env : Env) : Mbss × Entry × List Effect :=
  if b.resetting then (b.mbss, e, [])
  else if e.kind ≠ .client then (b.mbss, e, [])
  else if b.inRange = false then (b.mbss, e, [])
  else if WpaState.ptkStart.num < e.wpaState.num ∨ e.wpaState.num < WpaState.initPmk.num then
    (b.mbss, e, [])
  else if b.mbss.wscEntry = some e.addr then (b.mbss, { e with wpaState := .notUse }, [])
  else
    let e := { e with rCounter := e.rCounter + 1, aNonce := env.rand }
    if env.mpool e.addr = false then (b.mbss, e, [])
    else
      let msg1 := constructEapolMsg c { msgParams e b.mbss.groupCipher .pair1 with
        keyNonce := e.aNonce }
      let cacheIdx := if e.authMode = .wpa2 then e.pmkidCacheIdx else none
      match cacheIdx with
      | none => (b.mbss, { e with wpaState := .ptkStart }, [.sent msg1])
      | some i =>
        let slot := b.mbss.pmkidCache i
        ({ b.mbss with pmk := slot.pmk }, { e with wpaState := .ptkStart },
          [.loaded e.apidx slot.pmk, .sent (withPmkidKde msg1 slot.pmkid)])

/-- The RSN element for a peer. -/
def rsnIeFor (m : Mbss) (e : Entry) : List Byte :=
  if e.authMode = .wpa ∨ e.authMode = .wpaPsk then m.rsnIe
  else if m.authMode = .wpa1PskWpa2Psk ∨ m.authMode = .wpa1Wpa2 then m.rsnIe2
  else m.rsnIe

def peerPairMsg2Action (b : Bss) (e : Entry) (f : Elem) (env : Env) : Entry × List Effect :=
  if e.kind ≠ .client then (e, [])
  else if f.msgLen < minMsgLen then (e, [])
  else if e.wpaState.num < WpaState.ptkStart.num then (e, [])
  else if b.inRange = false then (e, [])
  else
    -- the PTK is stored before the message is checked
    let e := { e with
      sNonce := f.packet.keyNonce
      ptk := wpaDerivePTK c b.mbss.pmk e.aNonce b.mbss.bssid f.packet.keyNonce e.addr }
    let derived := Effect.derived b.mbss.pmk e.aNonce e.sNonce
    if messageOk c e .pair2 f.packet env = false then (e, [derived])
    else if env.mpool e.addr = false then (e, [derived])
    else
      let e := { e with wpaState := .ptkInitNegotiating, rCounter := e.rCounter + 1 }
      let msg3 := constructEapolMsg c { msgParams e b.mbss.groupCipher .pair3 with
        defaultKeyIdx := b.mbss.defaultKeyId
        keyNonce := e.aNonce
        txRsc := env.txTsc
        gtk := b.mbss.gtk
        rsnIe := rsnIeFor b.mbss e }
      (e, [derived, .sent msg3])

def wpaStart2WayGroupHS (b : Bss) (e : Entry) (env : Env) : Entry × List Effect :=
  if e.kind ≠ .client then (e, [])
  else if b.inRange = false then (e, [])
  else if env.mpool e.addr = false then (e, [])
  else
    let e := { e with rCounter := e.rCounter + 1 }
    let msg1 := constructEapolMsg c { msgParams e b.mbss.groupCipher .group1 with
      defaultKeyIdx := b.mbss.defaultKeyId
      keyNonce := b.mbss.gNonce
      txRsc := env.txTsc
      gtk := b.mbss.gtk }
    (e, [.sent msg1])

def pmkidOf (m : Mbss) (addr : MacAddr) : BitVec 128 :=
  (c.hmacSha1 m.pmk ([80, 77, 75, 32, 78, 97, 109, 101] ++ beBytes 6 m.bssid ++ beBytes 6 addr)
    >>> 32).setWidth 128

def peerPairMsg4Action (b : Bss) (e : Entry) (f : Elem) (env : Env) :
    Mbss × Entry × List Effect :=
  if e.kind ≠ .client then (b.mbss, e, [])
  else if f.msgLen < minMsgLen then (b.mbss, e, [])
  else if e.wpaState.num < WpaState.ptkInitNegotiating.num then (b.mbss, e, [])
  else if b.inRange = false then (b.mbss, e, [])
  else if messageOk c e .pair4 f.packet env = false then (b.mbss, e, [])
  else
    let (e, installed) := wpaInstallPairwiseKey e true
    let e := { e with acceptAll := true, wpaState := .ptkInitDone, portSecured := true }
    if e.authMode.isWpa2 then
      let e := { e with gtkState := .established }
      if e.authMode = .wpa2 then
        (rtmpAddPMKIDCache b.mbss e.addr (pmkidOf c b.mbss e.addr) b.mbss.pmk env.now, e,
          installed ++ [.cached e.addr b.mbss.pmk])
      else (b.mbss, e, installed)
    else
      let (e, sent) := wpaStart2WayGroupHS c b e env
      (b.mbss, e, installed ++ sent)

def peerGroupMsg2Action (b : Bss) (e : Entry) (f : Elem) (env : Env) : Entry × List Effect :=
  if e.kind ≠ .client then (e, [])
  else if f.msgLen < minMsgLen then (e, [])
  else if e.wpaState ≠ .ptkInitDone then (e, [])
  else if b.inRange = false then (e, [])
  else if messageOk c e .group2 f.packet env = false then (e, [])
  else ({ e with gtkState := .established }, [])

end RalinkSdk.Wpa
