import RalinkSdk.Lib.Run
import Mathlib

/-!
# Pending RADIUS requests

The client keeps every Access-Request it has sent on the list `msgs` until a reply comes,
the retry limit is reached, the list is full or the identifier is used again.

The entries live in memory: `heap a` is the entry at address `a`, `none` if nothing is
allocated there.  A function of the model returns `none` where the code reads or writes
memory that is not allocated, or where a walk does not end.  `malloc` may return any address
that is free, or fail; its choice is a parameter.  A server is known by its shared
secret, and time does not stand still or run backwards by assumption: every reading of
the clock is a parameter.

## Source

`user/802.1x/radius_client.c`, `radius_client.h`, `config.h`, built with `MULTIPLE_RADIUS`.
-/

namespace RalinkSdk.Dot1x

open Function List

open Lib

/-! ## Data -/

def radiusClientFirstWait : Int := 1

def radiusClientMaxWait : Int := 120

def radiusClientMaxRetries : Int := 10

def radiusClientMaxEntries : Nat := 30

def radiusClientNumFailover : Int := 4

abbrev maxMbssidNum : Nat := 8

instance (priority := 1100) instNeZeroMaxMbssidNum : NeZero maxMbssidNum := ⟨Nat.succ_ne_zero 7⟩

inductive RadiusType where
  | radiusAuth
  deriving DecidableEq

/-- The part of an Access-Request that is looked at again: the identifier of its header, and
    the station its Calling-Station-Id names. -/
structure RadiusMsg where
  identifier : BitVec 8
  callingStation : Nat
  deriving DecidableEq

structure RadiusMsgList where
  msg : RadiusMsg
  msgType : RadiusType
  firstTry : Int
  nextTry : Int
  attempts : Int
  nextWait : Int
  sharedSecret : List (BitVec 8)
  apIdx : Fin maxMbssidNum
  next : Option Nat
  deriving DecidableEq

/-- `struct radius_client_data`, with the servers of each interface and the one in use. -/
structure RadiusClient where
  heap : Nat → Option RadiusMsgList
  msgs : Option Nat
  numMsgs : BitVec 32
  nextRadiusIdentifier : BitVec 8
  ssidNum : Nat
  mbssAuthServers : Fin maxMbssidNum → List (List (BitVec 8))
  mbssAuthServer : Fin maxMbssidNum → Nat

namespace RadiusClient

/-! ## Memory -/

/-- `*a = e` -/
def store (c : RadiusClient) (a : Nat) (e : RadiusMsgList) : Option RadiusClient :=
  if (c.heap a).isSome then some { c with heap := update c.heap a (some e) } else none

def radiusClientMsgFree (c : RadiusClient) (a : Nat) : Option RadiusClient :=
  if (c.heap a).isSome then some { c with heap := update c.heap a none } else none

/-- `malloc`, which returns the address of its choice if it is free, or fails. -/
def malloc (c : RadiusClient) (choice : Option Nat) : Option Nat :=
  choice.filter fun a => (c.heap a).isNone

/-- `if (prev) prev->next = q; else msgs = q;` -/
def relink (c : RadiusClient) (prev q : Option Nat) : Option RadiusClient :=
  match prev with
  | none => some { c with msgs := q }
  | some p => do
    let e ← c.heap p
    c.store p { e with next := q }

/-- The links along which a walk goes. -/
def next (c : RadiusClient) (a : Nat) : Option Nat := (c.heap a).bind RadiusMsgList.next

/-- How many entries a walk looks at before the model gives up. -/
def walkLimit : Nat := 40

/-! ## Identifiers -/

/-- The loop of `Radius_client_get_id`.  `prev` follows `entry` also past an entry that has
    been freed, and the counter stays as it is. -/
def getIdLoop : Nat → BitVec 8 → RadiusClient → Option Nat → Option Nat → Option RadiusClient
  | 0, _, _, _, _ => none
  | _ + 1, _, c, none, _ => some c
  | fuel + 1, id, c, some a, prev => do
    let e ← c.heap a
    if e.msg.identifier = id then
      let c ← c.relink prev e.next
      let c ← c.radiusClientMsgFree a
      getIdLoop fuel id c e.next (some a)
    else getIdLoop fuel id c e.next (some a)

def radiusClientGetId (c : RadiusClient) : Option (RadiusClient × BitVec 8) := do
  let id := c.nextRadiusIdentifier
  let c := { c with nextRadiusIdentifier := id + 1 }
  let c ← getIdLoop walkLimit id c c.msgs none
  some (c, id)

/-! ## Adding a request -/

/-- The walk of `Radius_client_list_add` to the last entry, and the entry before it. -/
def lastEntry : Nat → RadiusClient → Nat → Option Nat → Option (Nat × Option Nat)
  | 0, _, _, _ => none
  | fuel + 1, c, a, prev => do
    let e ← c.heap a
    match e.next with
    | none => some (a, prev)
    | some b => lastEntry fuel c b (some a)

/-- The oldest request leaves a full list. -/
def dropOldest (c : RadiusClient) (a : Nat) : Option RadiusClient := do
  let (last, prev) ← lastEntry walkLimit c a none
  match prev with
  | none => some c
  | some p =>
    let c ← c.relink (some p) none
    c.radiusClientMsgFree last

/-- `Radius_client_list_add`: `terminated` is what `eloop_terminated` returns. -/
def radiusClientListAdd (c : RadiusClient) (terminated : Bool) (choice : Option Nat)
    (msg : RadiusMsg) (msgType : RadiusType) (sharedSecret : List (BitVec 8))
    (apIdx : Fin maxMbssidNum) (now : Int) : Option RadiusClient :=
  if terminated then some c
  else
    match c.malloc choice with
    | none => some c
    | some a => do
      let entry : RadiusMsgList :=
        { msg := msg
          msgType := msgType
          firstTry := now
          nextTry := now + radiusClientFirstWait
          attempts := 1
          nextWait := radiusClientFirstWait * 2
          sharedSecret := sharedSecret
          apIdx := apIdx
          next := c.msgs }
      let c := { c with heap := update c.heap a (some entry), msgs := some a }
      if radiusClientMaxEntries ≤ c.numMsgs.toNat then c.dropOldest a
      else some { c with numMsgs := c.numMsgs + 1 }

/-- The secret of the server in use. -/
def secretOf (c : RadiusClient) (i : Fin maxMbssidNum) : List (BitVec 8) :=
  (c.mbssAuthServers i).getD (c.mbssAuthServer i) []

def radiusClientSend (c : RadiusClient) (terminated : Bool) (choice : Option Nat)
    (msg : RadiusMsg) (msgType : RadiusType) (apIdx : Fin maxMbssidNum) (now : Int) :
    Option RadiusClient :=
  c.radiusClientListAdd terminated choice msg msgType (c.secretOf apIdx) apIdx now

/-! ## Replies -/

/-- The search of `Radius_client_receive`: the request a reply answers, and the entry
    before it. -/
def findRequest : Nat → RadiusClient → RadiusType → BitVec 8 → Option Nat → Option Nat →
    Option (Option (Nat × RadiusMsgList × Option Nat))
  | 0, _, _, _, _, _ => none
  | _ + 1, _, _, _, none, _ => some none
  | fuel + 1, c, msgType, id, some a, prev => do
    let e ← c.heap a
    if e.msgType = msgType ∧ e.msg.identifier = id then some (some (a, e, prev))
    else findRequest fuel c msgType id e.next (some a)

/-- What `Radius_client_receive` does to the list: the request that is answered is
    unlinked and, once the handler has looked at it, freed. -/
def takeRequest (c : RadiusClient) (msgType : RadiusType) (id : BitVec 8) :
    Option (RadiusClient × Option RadiusMsgList) := do
  match ← findRequest walkLimit c msgType id c.msgs none with
  | none => some (c, none)
  | some (a, e, prev) =>
    let c ← c.relink prev e.next
    let c := { c with numMsgs := c.numMsgs - 1 }
    let c ← c.radiusClientMsgFree a
    some (c, some e)

/-! ## Flushing -/

def flushLoop : Nat → RadiusClient → Option Nat → Option RadiusClient
  | 0, _, _ => none
  | _ + 1, c, none => some c
  | fuel + 1, c, some a => do
    let e ← c.heap a
    let c ← c.radiusClientMsgFree a
    flushLoop fuel c e.next

def radiusClientFlush (c : RadiusClient) : Option RadiusClient :=
  flushLoop walkLimit { c with msgs := none, numMsgs := 0 } c.msgs

/-- The entry with its retry counters as for a new request. -/
def resetRetries (e : RadiusMsgList) : RadiusMsgList :=
  { e with
    nextTry := e.firstTry + radiusClientFirstWait
    attempts := 0
    nextWait := radiusClientFirstWait * 2 }

/-- The loop of `Radius_change_server` that resets the retry counters. -/
def resetLoop : Nat → RadiusClient → Option Nat → Option RadiusClient
  | 0, _, _ => none
  | _ + 1, c, none => some c
  | fuel + 1, c, some a => do
    let e ← c.heap a
    let c ← c.store a (resetRetries e)
    resetLoop fuel c e.next

/-- `Radius_change_server`: requests signed with another secret are dropped. -/
def radiusChangeServer (c : RadiusClient) (nserv oserv : List (BitVec 8)) :
    Option RadiusClient :=
  if nserv ≠ oserv then c.radiusClientFlush else resetLoop walkLimit c c.msgs

/-- Interface `i` changes to its server number `k`. -/
def useServer (c : RadiusClient) (i : Fin maxMbssidNum) (k : Nat) : Option RadiusClient :=
  let oserv := c.secretOf i
  let c := { c with mbssAuthServer := update c.mbssAuthServer i k }
  c.radiusChangeServer (c.secretOf i) oserv

/-! ## Retransmission -/

/-- `Radius_client_retransmit`: the entry after one more attempt, and whether it was
    the last one. -/
def radiusClientRetransmit (e : RadiusMsgList) (now : Int) : RadiusMsgList × Bool :=
  let e := { e with attempts := e.attempts + 1 }
  let e := { e with nextTry := now + e.nextWait, nextWait := min (e.nextWait * 2) radiusClientMaxWait }
  (e, decide (radiusClientMaxRetries ≤ e.attempts))

/-- The test at the head of the loop of `Radius_client_timer`. -/
def tryAgain (e : RadiusMsgList) (now : Int) : RadiusMsgList × Bool :=
  if e.nextTry ≤ now then radiusClientRetransmit e now else (e, false)

/-- `mbss_auth_failover` after an entry that stays. -/
def countFailover (failover : Fin maxMbssidNum → Nat) (e : RadiusMsgList) :
    Fin maxMbssidNum → Nat :=
  if radiusClientNumFailover < e.attempts ∧ e.msgType = .radiusAuth then
    update failover e.apIdx (failover e.apIdx + 1)
  else failover

/-- The loop of `Radius_client_timer`; `failover` counts the requests of an interface that
    have failed too often. -/
def timerLoop : Nat → Int → RadiusClient → Option Nat → Option Nat → (Fin maxMbssidNum → Nat) →
    Option (RadiusClient × (Fin maxMbssidNum → Nat))
  | 0, _, _, _, _, _ => none
  | _ + 1, _, c, none, _, failover => some (c, failover)
  | fuel + 1, now, c, some a, prev, failover => do
    let e ← c.heap a
    let (e, last) := tryAgain e now
    let c ← c.store a e
    if last then
      let c ← c.relink prev e.next
      let c ← c.radiusClientMsgFree a
      timerLoop fuel now { c with numMsgs := c.numMsgs - 1 } e.next prev failover
    else timerLoop fuel now c e.next (some a) (countFailover failover e)

/-- The next server of interface `i`, the first one after the last. -/
def nextServer (c : RadiusClient) (i : Fin maxMbssidNum) : Nat :=
  if (c.mbssAuthServers i).length - 1 < c.mbssAuthServer i + 1 then 0 else c.mbssAuthServer i + 1

/-- The part of `Radius_client_timer` that changes servers. -/
def failoverServers (failover : Fin maxMbssidNum → Nat) (c : RadiusClient) :
    Option RadiusClient :=
  ((finRange maxMbssidNum).filter fun i => i.val < c.ssidNum).foldlM (fun c i =>
    if failover i ≠ 0 ∧ 1 < (c.mbssAuthServers i).length then c.useServer i (c.nextServer i)
    else some c) c

def radiusClientTimer (c : RadiusClient) (now : Int) : Option RadiusClient :=
  match c.msgs with
  | none => some c
  | some _ => do
    let (c, failover) ← timerLoop walkLimit now c c.msgs none (fun _ => 0)
    c.failoverServers failover

/-- `Radius_retry_primary_timer`; `ready i` tells whether the socket of interface `i` is
    open and it has servers. -/
def radiusRetryPrimaryTimer (c : RadiusClient) (ready : Fin maxMbssidNum → Bool) :
    Option RadiusClient :=
  ((finRange maxMbssidNum).filter fun i => i.val < c.ssidNum).foldlM (fun c i =>
    if ready i ∧ c.mbssAuthServer i ≠ 0 then c.useServer i 0 else some c) c

end RadiusClient

/-! ## Calls -/

/-- The calls that touch the list. -/
inductive RadiusCall where
  /-- `Radius_client_get_id` and, if the message could be built, `Radius_client_send`. -/
  | request (station : Nat) (built terminated : Bool) (choice : Option Nat)
      (apIdx : Fin maxMbssidNum) (now : Int)
  /-- `Radius_client_receive` -/
  | reply (msgType : RadiusType) (identifier : BitVec 8)
  /-- `Radius_client_timer` -/
  | timer (now : Int)
  /-- `Radius_retry_primary_timer` -/
  | retryPrimary (ready : Fin maxMbssidNum → Bool)
  /-- `Radius_client_flush` -/
  | flush

namespace RadiusClient

/-- A request as `ieee802_1x_encapsulate_radius` makes it: the identifier it uses, and the
    client afterwards. -/
def accessRequest (c : RadiusClient) (station : Nat) (built terminated : Bool)
    (choice : Option Nat) (apIdx : Fin maxMbssidNum) (now : Int) :
    Option (RadiusClient × BitVec 8) := do
  let (c, id) ← c.radiusClientGetId
  if built then
    let c ← c.radiusClientSend terminated choice ⟨id, station⟩ .radiusAuth apIdx now
    some (c, id)
  else some (c, id)

def call (c : RadiusClient) : RadiusCall → Option RadiusClient
  | .request station built terminated choice apIdx now =>
    (c.accessRequest station built terminated choice apIdx now).map Prod.fst
  | .reply msgType identifier => (c.takeRequest msgType identifier).map Prod.fst
  | .timer now => c.radiusClientTimer now
  | .retryPrimary ready => c.radiusRetryPrimaryTimer ready
  | .flush => c.radiusClientFlush

end RadiusClient

def radiusClientInit (ssidNum : Nat) (servers : Fin maxMbssidNum → List (List (BitVec 8))) :
    RadiusClient where
  heap := fun _ => none
  msgs := none
  numMsgs := 0
  nextRadiusIdentifier := 0
  ssidNum := ssidNum
  mbssAuthServers := servers
  mbssAuthServer := fun _ => 0

end RalinkSdk.Dot1x
