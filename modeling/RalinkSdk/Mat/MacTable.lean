import RalinkSdk.IgmpSnoop.Snooping
import RalinkSdk.Lib.HashChain

/-!
# The address tables of the MAC translation

As a client the driver has one MAC address for all stations behind it, and it keeps for each IP
address the MAC address that it last saw with it.  There is a table for IPv4 and one for IPv6;
both are a hash table of linked nodes, and their functions are written alike, so that the model
has them once, with what a protocol does with its addresses as a parameter.

A node is known by the number of its allocation, and a null pointer is `none`.  A function
returns `none` where the code follows a null pointer or one to freed memory.  The clock is read
several times in a call; the readings are a parameter, and nothing is assumed about them, nor
about when memory runs out.

## Source

`common/cmm_mat_iparp.c`, `common/cmm_mat_ipv6.c`, `common/cmm_mat.c`, `include/mat.h`.
-/

namespace RalinkSdk.Mat

open BlockAck (rtmpTimeAfter)
open IgmpSnoop (MacAddr FrameByte convertMulticastIp2Mac convertMulticastIp2Mac_isSome_iff)
open Lib Function List
open scoped IgmpSnoop

/-! ## Data -/

abbrev matMaxHashEntrySupport : Nat := 64

scoped instance : NeZero matMaxHashEntrySupport := ⟨by decide⟩

/-- `MAT_TB_ENTRY_AGEOUT_TIME`: five minutes at 250 ticks a second. -/
def matTbEntryAgeoutTime : BitVec 32 := 5 * 60 * 250

/-- An index of `hash`: one for each value of the hash function, and
    `IPMAC_TB_HASH_INDEX_OF_BCAST`. -/
abbrev Bucket := Fin (matMaxHashEntrySupport + 1)

/-- The index of the entry for the broadcast address. -/
def hashIndexOfBcast : Bucket := Fin.last matMaxHashEntrySupport

def broadcastAddr : MacAddr := fun _ => 0xff

/-- A node, by the number of its allocation. -/
abbrev Node := Nat

variable {α : Type}

/-- `IPMacMappingEntry`, `IPv6MacMappingEntry` -/
structure MacMappingEntry (α : Type) where
  addr : α
  macAddr : MacAddr
  lastTime : BitVec 32
  pNext : Option Node

/-- `IPMacMappingTable` or `IPv6MacMappingTable` with its nodes in memory, the number of the
    next allocation, and what it adds to `nodeCount`. -/
structure MacTable (α : Type) where
  valid : Bool
  hash : Bucket → Option Node
  curMcastAddr : MacAddr
  node : Node → Option (MacMappingEntry α)
  fresh : Nat
  nodeCount : BitVec 32

/-- The readings of the clock in an update: at the `n`-th node of the walk, after the node was
    found there, and for a new node. -/
structure Readings where
  walk : Nat → BitVec 32
  found : Nat → BitVec 32
  insert : BitVec 32

/-- What the functions do with the addresses of a protocol, and the time with which they stamp a
    node that an update finds. -/
structure MatProto (α : Type) where
  hashIndex : α → Fin matMaxHashEntrySupport
  isMulticast : α → Bool
  mcastMac : α → Option MacAddr
  mcastMac_isSome : ∀ a, (mcastMac a).isSome
  foundTime : Readings → Nat → BitVec 32

namespace MacTable

def setNode (t : MacTable α) (p : Node) (x : Option (MacMappingEntry α)) : MacTable α :=
  { t with node := update t.node p x }

def setHash (t : MacTable α) (k : Bucket) (p : Option Node) : MacTable α :=
  { t with hash := update t.hash k p }

def matDBEntryFree (t : MacTable α) (p : Node) : MacTable α := t.setNode p none

/-- `pNext` of a node. -/
def nextOf (t : MacTable α) (p : Node) : Option (Option Node) := (t.node p).map (·.pNext)

def walkFuel (t : MacTable α) : Nat := t.fresh + 1

/-! ## Update -/

/-- The node has not been used for a long time. -/
def isAged (x : MacMappingEntry α) (now : BitVec 32) : Bool :=
  rtmpTimeAfter now (x.lastTime + matTbEntryAgeoutTime)

/-- Take aged node `e` out of chain `k`, where `pPrev` is the node before it unless it is the
    first, and free it: `pPrev` and `pEntry` afterwards. -/
def removeAged (t : MacTable α) (k : Bucket) (pPrev : Option Node) (e : Node)
    (x : MacMappingEntry α) : Option (MacTable α × Option Node × Option Node) :=
  if some e = t.hash k then
    let t := { (t.setHash k x.pNext).matDBEntryFree e with nodeCount := t.nodeCount - 1 }
    -- the walk goes on behind the new first node
    match t.hash k with
    | none => some (t, none, none)
    | some p => do
      let pNext ← t.nextOf p
      some (t, some p, pNext)
  else do
    let p ← pPrev
    let y ← t.node p
    let t := { (t.setNode p (some { y with pNext := x.pNext })).matDBEntryFree e with
      nodeCount := t.nodeCount - 1 }
    let pNext ← t.nextOf p
    some (t, some p, pNext)

variable [DecidableEq α]

/-- The loop of an update: the table at its end, and whether the address was found. -/
def updateLoop (P : MatProto α) (k : Bucket) (addr : α) (pMacAddr : MacAddr) (now : Readings) :
    Nat → Nat → MacTable α → Option Node → Option Node → Option (MacTable α × Bool)
  | 0, _, _, _, _ => none
  | _ + 1, _, t, _, none => some (t, false)
  | fuel + 1, n, t, pPrev, some e => do
    let x ← t.node e
    if addr = x.addr then
      some (t.setNode e (some { x with macAddr := pMacAddr, lastTime := P.foundTime now n }), true)
    else if isAged x (now.walk n) then do
      let out ← t.removeAged k pPrev e x
      updateLoop P k addr pMacAddr now fuel (n + 1) out.1 out.2.1 out.2.2
    else
      updateLoop P k addr pMacAddr now fuel (n + 1) t (some e) x.pNext

/-- The new node in front of chain `k`; where the chain is empty it has no link either. -/
def insertNode (t : MacTable α) (k : Bucket) (addr : α) (pMacAddr : MacAddr) (now : BitVec 32) :
    MacTable α :=
  { (t.setNode t.fresh (some ⟨addr, pMacAddr, now, t.hash k⟩)).setHash k (some t.fresh) with
    fresh := t.fresh + 1
    nodeCount := t.nodeCount + 1 }

/-- `IPMacTableUpdate`, `IPv6MacTableUpdate`; `alloc` says whether `MATDBEntryAlloc` succeeds. -/
def macTableUpdate (P : MatProto α) (t : MacTable α) (pMacAddr : MacAddr) (addr : α)
    (now : Readings) (alloc : Bool) : Option (MacTable α × Bool) :=
  if !t.valid then some (t, false)
  else do
    let k := (P.hashIndex addr).castSucc
    let out ← updateLoop P k addr pMacAddr now t.walkFuel 0 t (t.hash k) (t.hash k)
    if out.2 then some (out.1, true)
    else if alloc then some (out.1.insertNode k addr pMacAddr now.insert, true)
    else some (out.1, false)

/-! ## Lookup -/

def lookUpLoop (t : MacTable α) (addr : α) : Nat → Option Node → Option (Option Node)
  | 0, _ => none
  | _ + 1, none => some none
  | fuel + 1, some e => do
    let x ← t.node e
    if x.addr = addr then some (some e) else t.lookUpLoop addr fuel x.pNext

/-- `IPMacTableLookUp`, `IPv6MacTableLookUp`: the address returned, or null. -/
def macTableLookUp (P : MatProto α) (t : MacTable α) (addr : α) (now : BitVec 32) :
    Option (MacTable α × Option MacAddr) :=
  if !t.valid then some (t, none)
  else if P.isMulticast addr then do
    let mac ← P.mcastMac addr
    some ({ t with curMcastAddr := mac }, some mac)
  else do
    let found ← t.lookUpLoop addr t.walkFuel (t.hash (P.hashIndex addr).castSucc)
    match found with
    | some e => do
      let x ← t.node e
      some (t.setNode e (some { x with lastTime := now }), some x.macAddr)
    | none => do
      let b ← t.hash hashIndexOfBcast
      let x ← t.node b
      some (t, some x.macAddr)

end MacTable

/-- `IPMacTable_init`, `IPv6MacTable_init` on success, where `zero` is an address of zero bytes. -/
def macTableInit (zero : α) : MacTable α where
  valid := true
  hash := update (fun _ => none) hashIndexOfBcast (some 0)
  curMcastAddr := fun _ => 0
  node := update (fun _ => none) 0 (some ⟨zero, broadcastAddr, 0, none⟩)
  fresh := 1
  nodeCount := 0

/-! ## IPv4 -/

/-- The bytes of a `UINT` in memory; the processor is little endian. -/
def uintBytes (x : BitVec 32) : List FrameByte :=
  [x.extractLsb' 0 8, x.extractLsb' 8 8, x.extractLsb' 16 8, x.extractLsb' 24 8]

def ntohl (x : BitVec 32) : BitVec 32 :=
  x.extractLsb' 0 8 ++ x.extractLsb' 8 8 ++ x.extractLsb' 16 8 ++ x.extractLsb' 24 8

def matIpAddrHash (a : BitVec 32) : BitVec 32 :=
  ((a >>> 24) &&& 0xff) ^^^ ((a >>> 16) &&& 0xff) ^^^ ((a >>> 8) &&& 0xff) ^^^ (a &&& 0xff)

def isMulticastIp (ip : BitVec 32) : Bool := (ip &&& 0xf0000000) == 0xe0000000

theorem convert_uintBytes_isSome (a : BitVec 32) :
    (convertMulticastIp2Mac .ethPIp (uintBytes a) 0).isSome :=
  convertMulticastIp2Mac_isSome_iff.mpr (Nat.le_refl 4)

/-- Addresses are in network order. -/
def matIp : MatProto (BitVec 32) where
  -- `MAT_IP_ADDR_HASH_INDEX`
  hashIndex a := Fin.ofNat matMaxHashEntrySupport (matIpAddrHash a).toNat
  isMulticast a := isMulticastIp (ntohl a)
  mcastMac a := convertMulticastIp2Mac .ethPIp (uintBytes a) 0
  mcastMac_isSome := convert_uintBytes_isSome
  foundTime now := now.walk

def ipMacTableUpdate (t : MacTable (BitVec 32)) (pMacAddr : MacAddr) (ipAddr : BitVec 32)
    (now : Readings) (alloc : Bool) : Option (MacTable (BitVec 32) × Bool) :=
  t.macTableUpdate matIp pMacAddr ipAddr now alloc

def ipMacTableLookUp (t : MacTable (BitVec 32)) (ipAddr : BitVec 32) (now : BitVec 32) :
    Option (MacTable (BitVec 32) × Option MacAddr) :=
  t.macTableLookUp matIp ipAddr now

/-! ## IPv6 -/

abbrev Ipv6Addr := Fin 16 → FrameByte

def matIpv6AddrHash (a : Ipv6Addr) : FrameByte := a 10 ^^^ a 13 ^^^ a 14 ^^^ a 15

theorem convert_ofFn_isSome (a : Ipv6Addr) :
    (convertMulticastIp2Mac .ethPIpv6 (ofFn a) 0).isSome :=
  convertMulticastIp2Mac_isSome_iff.mpr (by simp [IgmpSnoop.ProtoType.addrLen])

/-- Addresses are in network order. -/
def matIpv6 : MatProto Ipv6Addr where
  -- `MAT_IPV6_ADDR_HASH_INDEX`
  hashIndex a := Fin.ofNat matMaxHashEntrySupport (matIpv6AddrHash a).toNat
  -- `IS_MULTICAST_IPV6_ADDR`
  isMulticast a := a 0 == 0xff
  mcastMac a := convertMulticastIp2Mac .ethPIpv6 (ofFn a) 0
  mcastMac_isSome := convert_ofFn_isSome
  -- the clock is read again
  foundTime now := now.found

def ipv6MacTableUpdate (t : MacTable Ipv6Addr) (pMacAddr : MacAddr) (pIPv6Addr : Ipv6Addr)
    (now : Readings) (alloc : Bool) : Option (MacTable Ipv6Addr × Bool) :=
  t.macTableUpdate matIpv6 pMacAddr pIPv6Addr now alloc

def ipv6MacTableLookUp (t : MacTable Ipv6Addr) (pIPv6Addr : Ipv6Addr) (now : BitVec 32) :
    Option (MacTable Ipv6Addr × Option MacAddr) :=
  t.macTableLookUp matIpv6 pIPv6Addr now

end RalinkSdk.Mat
