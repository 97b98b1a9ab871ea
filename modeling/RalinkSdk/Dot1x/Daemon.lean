import RalinkSdk.Dot1x.RadiusClient

/-!
# The 802.1X daemon

Stations, their state machines, the timeouts of the event loop and the RADIUS client in
one process.  An event is what the event loop hands to the daemon, or a part of the
handling of one: a state machine that runs may send a request, and an accepted station
may be removed when its reply has been handled, so both are events of their own.

Stations and state machines are numbered in the order of their allocation.  A number is not
used again, so a timeout that names one which has been freed can be told from a timeout
of a later object at the same address.  `sta_hash` holds the stations of `sta_list` by
address and is not kept apart.

## Source

`user/802.1x/sta_info.c`, `ieee802_1x.c`, `eapol_sm.c`, `eloop.c`, `rtdot1x.c`.
-/

namespace RalinkSdk.Dot1x

open Function

open Lib

/-! ## Data -/

/-- `struct sta_info`.  `radius_identifier` is `none` where the code has `-1`. -/
structure StaInfo where
  sta : Nat
  addr : BitVec 48
  apIdx : Fin maxMbssidNum
  eapolSm : Option Nat
  radiusIdentifier : Option (BitVec 8)
  deriving DecidableEq

/-- A handler of the event loop with its `timeout_ctx`. -/
inductive TimeoutHandler where
  | eapolPortTimersTick (sm : Nat)
  | apHandleSessionTimer (sta : Nat)
  deriving DecidableEq

structure EloopTimeout where
  time : Nat
  handler : TimeoutHandler
  deriving DecidableEq

def maxStaCount : Nat := 1024

/-- `rtapd`, the timeouts of the event loop, and the objects that are allocated.
    `closing` is the station that `ieee802_1x_receive_auth` frees before it returns. -/
structure Daemon where
  radius : RadiusClient
  sessionTimeoutSet : Bool
  sessionTimeoutInterval : BitVec 32
  staList : List StaInfo
  timeouts : List EloopTimeout
  nextSta : Nat
  nextSm : Nat
  liveSta : Nat → Bool
  liveSm : Nat → Bool
  closing : Option Nat

/-- The codes of the replies of a server. -/
inductive RadiusCode where
  | accessAccept
  | accessReject
  | accessChallenge
  | other
  deriving DecidableEq

/-- A reply: `bare` if it carries neither a Message-Authenticator nor an EAP-Message,
    `verified` if `Radius_msg_verify` accepts it as an answer to the request.
    `terminateByRequest` if its Termination-Action is `RADIUS_REQUEST`. -/
structure RadiusReply where
  identifier : BitVec 8
  code : RadiusCode
  bare : Bool
  verified : Bool
  sessionTimeout : Option (BitVec 32)
  terminateByRequest : Bool
  deriving DecidableEq

namespace Daemon

variable (d : Daemon)

/-! ## Timeouts -/

/-- The place of a timeout: behind all that are not later. -/
def insertTimeout (t : EloopTimeout) : List EloopTimeout → List EloopTimeout
  | [] => [t]
  | u :: us => if t.time < u.time then t :: u :: us else u :: insertTimeout t us

def eloopRegisterTimeout (now secs : Nat) (handler : TimeoutHandler) : Daemon :=
  { d with timeouts := insertTimeout ⟨now + secs * 1000000, handler⟩ d.timeouts }

def eloopCancelTimeout (handler : TimeoutHandler) : Daemon :=
  { d with timeouts := d.timeouts.filter fun t => t.handler ≠ handler }

/-! ## Stations -/

/-- `eapol_sm_alloc` for a station: the new machine gets its tick. -/
def eapolSmAllocFor (now : Nat) : Daemon × Nat :=
  let sm := d.nextSm
  let d := { d with nextSm := sm + 1, liveSm := update d.liveSm sm true }
  let d := d.eloopCancelTimeout (.eapolPortTimersTick sm)
  (d.eloopRegisterTimeout now 1 (.eapolPortTimersTick sm), sm)

def eapolSmFree (sm : Option Nat) : Daemon :=
  match sm with
  | none => d
  | some sm =>
    let d := d.eloopCancelTimeout (.eapolPortTimersTick sm)
    { d with liveSm := update d.liveSm sm false }

/-- `Ap_get_sta`; `memory` and `smMemory` tell whether the station and its machine could
    be allocated. -/
def apGetSta (addr : BitVec 48) (apIdx : Fin maxMbssidNum) (memory smMemory : Bool) (now : Nat) :
    Daemon :=
  if d.staList.any (fun s => s.addr == addr) then d
  else if maxStaCount ≤ d.staList.length || !memory then d
  else
    let sta := d.nextSta
    let d := { d with nextSta := sta + 1, liveSta := update d.liveSta sta true }
    if smMemory then
      let (d, sm) := d.eapolSmAllocFor now
      { d with staList := ⟨sta, addr, apIdx, some sm, none⟩ :: d.staList }
    else { d with staList := ⟨sta, addr, apIdx, none, none⟩ :: d.staList }

/-- `ieee802_1x_receive` allocates the machine of a station that has none. -/
def receiveEapol (sta now : Nat) : Daemon :=
  if d.staList.any (fun s => s.sta == sta && s.eapolSm.isNone) then
    let (d, sm) := d.eapolSmAllocFor now
    { d with staList := d.staList.map fun s =>
        if s.sta = sta then { s with eapolSm := some sm } else s }
  else d

def apFreeSta (s : StaInfo) : Daemon :=
  let d := { d with staList := d.staList.erase s }
  let d := d.eapolSmFree s.eapolSm
  { d with liveSta := update d.liveSta s.sta false }

def apdFreeStas : Daemon := d.staList.foldl apFreeSta d

def apStaSessionTimeout (sta now : Nat) (sessionTimeout : BitVec 32) : Daemon :=
  (d.eloopCancelTimeout (.apHandleSessionTimer sta)).eloopRegisterTimeout now
    sessionTimeout.toNat (.apHandleSessionTimer sta)

def apGetStaRadiusIdentifier (identifier : BitVec 8) : Option StaInfo :=
  d.staList.find? fun s => s.radiusIdentifier == some identifier

def setRadiusIdentifier (sta : Nat) (id : Option (BitVec 8)) : Daemon :=
  { d with staList := d.staList.map fun s =>
      if s.sta = sta then { s with radiusIdentifier := id } else s }

/-! ## Requests and replies -/

/-- `ieee802_1x_encapsulate_radius` for the station `s`. -/
def encapsulateRadius (s : StaInfo) (built terminated : Bool) (choice : Option Nat) (now : Int) :
    Option Daemon := do
  let (radius, id) ← d.radius.accessRequest s.sta built terminated choice s.apIdx now
  some ({ d with radius := radius }.setRadiusIdentifier s.sta (some id))

/-- The station to which `ieee802_1x_receive_auth` delivers a reply, if it does. -/
def deliverTo (reply : RadiusReply) : Option StaInfo :=
  (d.apGetStaRadiusIdentifier reply.identifier).filter fun _ =>
    ((reply.code == .accessReject && reply.bare) || reply.verified) && reply.code != .other

/-- The session timeout an Access-Accept arms, if it arms one. -/
def sessionTimeoutOf (reply : RadiusReply) : Option (BitVec 32) :=
  match reply.sessionTimeout with
  | some t => if d.sessionTimeoutSet then
      some (if t < d.sessionTimeoutInterval then t else d.sessionTimeoutInterval) else some t
  | none => if d.sessionTimeoutSet then some d.sessionTimeoutInterval else none

/-- `ieee802_1x_receive_auth`, up to the call of `eapol_sm_step`. -/
def receiveAuth (reply : RadiusReply) (now : Nat) : Daemon :=
  match d.deliverTo reply with
  | none => d
  | some s =>
    let d := d.setRadiusIdentifier s.sta none
    match reply.code with
    | .accessAccept =>
      if reply.sessionTimeout.isSome && reply.terminateByRequest then d
      else
        match d.sessionTimeoutOf reply with
        | some t => d.apStaSessionTimeout s.sta now t
        | none => { d with closing := some s.sta }
    | _ => d

def radiusClientReceive (reply : RadiusReply) (now : Nat) : Option Daemon := do
  match ← d.radius.takeRequest .radiusAuth reply.identifier with
  | (radius, none) => some { d with radius := radius }
  | (radius, some _) => some ({ d with radius := radius }.receiveAuth reply now)

/-- The first timeout of `eloop_run`, if it is due: `eapol_port_timers_tick` registers
    itself again. -/
def eloopExpire (now : Nat) : Daemon :=
  match d.timeouts with
  | [] => d
  | t :: ts =>
    if t.time ≤ now then
      let d := { d with timeouts := ts }
      match t.handler with
      | .eapolPortTimersTick sm => d.eloopRegisterTimeout now 1 (.eapolPortTimersTick sm)
      | .apHandleSessionTimer _ => d
    else d

end Daemon

/-! ## Events -/

inductive DaemonEvent where
  /-- A frame from a station, which may be new. -/
  | getSta (addr : BitVec 48) (apIdx : Fin maxMbssidNum) (memory smMemory : Bool) (now : Nat)
  /-- A frame from a station whose machine could not be allocated before. -/
  | receiveEapol (sta now : Nat)
  /-- The machine of a station sends a request. -/
  | request (sta : Nat) (built terminated : Bool) (choice : Option Nat) (now : Int)
  /-- A reply of the server. -/
  | reply (reply : RadiusReply) (now : Nat)
  /-- The end of the handling of a reply. -/
  | replyDone
  /-- The driver has disconnected the station with this address. -/
  | disconnect (addr : BitVec 48)
  /-- The configuration is read again. -/
  | reload (sessionTimeoutSet : Bool) (sessionTimeoutInterval : BitVec 32)
  /-- A timeout of a station or of a machine. -/
  | expire (now : Nat)
  /-- The two timers of the RADIUS client. -/
  | radiusTimer (now : Int)
  | retryPrimary (ready : Fin maxMbssidNum → Bool)

namespace Daemon

/-- Frees the station, if there is one. -/
def freeFound (d : Daemon) (s : Option StaInfo) : Daemon :=
  match s with
  | none => d
  | some s => d.apFreeSta s

/-- One event.  `none` where the RADIUS client goes astray in memory. -/
def step (d : Daemon) : DaemonEvent → Option Daemon
  | .getSta addr apIdx memory smMemory now => some (d.apGetSta addr apIdx memory smMemory now)
  | .receiveEapol sta now => some (d.receiveEapol sta now)
  | .request sta built terminated choice now =>
    match d.staList.find? fun s => s.sta == sta with
    | none => some d
    | some s => d.encapsulateRadius s built terminated choice now
  | .reply reply now => d.radiusClientReceive reply now
  | .replyDone =>
    some ({ d with closing := none }.freeFound
      (d.closing.bind fun sta => d.staList.find? fun s => s.sta == sta))
  | .disconnect addr => some (d.freeFound (d.staList.find? fun s => s.addr == addr))
  | .reload set interval => do
    let radius ← d.radius.radiusClientFlush
    some { d with
      radius := radius
      sessionTimeoutSet := set
      sessionTimeoutInterval := interval }.apdFreeStas
  | .expire now => some (d.eloopExpire now)
  | .radiusTimer now => do
    let radius ← d.radius.radiusClientTimer now
    some { d with radius := radius }
  | .retryPrimary ready => do
    let radius ← d.radius.radiusRetryPrimaryTimer ready
    some { d with radius := radius }

/-- An event in a daemon that may have gone astray. -/
def stepM (d : Option Daemon) (e : DaemonEvent) : Option Daemon := d.bind (·.step e)

/-- A property of the daemon in which an event is handled. -/
def OnEvent (P : Daemon → DaemonEvent → Prop) (s : Option Daemon) (e : DaemonEvent) : Prop :=
  ∀ d, s = some d → P d e

instance instDecidableOnEvent (P : Daemon → DaemonEvent → Prop) [∀ d e, Decidable (P d e)] :
    (s : Option Daemon) → (e : DaemonEvent) → Decidable (OnEvent P s e)
  | none, _ => isTrue fun _ h => by cases h
  | some d, e => decidable_of_iff (P d e) ⟨fun h _ heq => Option.some.inj heq ▸ h, fun h => h d rfl⟩

end Daemon

/-- The daemon after `Apd_setup_interface`. -/
def apdInit (radius : RadiusClient) (sessionTimeoutSet : Bool)
    (sessionTimeoutInterval : BitVec 32) : Daemon where
  radius := radius
  sessionTimeoutSet := sessionTimeoutSet
  sessionTimeoutInterval := sessionTimeoutInterval
  staList := []
  timeouts := []
  nextSta := 0
  nextSm := 0
  liveSta := fun _ => false
  liveSm := fun _ => false
  closing := none

end RalinkSdk.Dot1x
