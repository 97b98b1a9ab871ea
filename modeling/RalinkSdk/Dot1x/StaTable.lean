import Mathlib.Data.BitVec
import RalinkSdk.Lib.HashChain
import RalinkSdk.Lib.Run

/-!
# The station table of the 802.1X daemon

The stations are allocated one by one.  Each is on the list `sta_list` and on the hash chain of
its address, linked through two fields of its own.  `none` stands for the use of memory that is
not allocated, or for a walk that does not end.

## Source

`user/802.1x/sta_info.c`, `user/802.1x/ap.h`.
-/

namespace RalinkSdk.Dot1x

open Function

open Lib

/-- `MAX_STA_COUNT`, compared with the signed `num_sta`. -/
def staCountLimit : Int := 1024

/-- The part of `struct sta_info` that the table uses and sets. -/
structure StaNode where
  next : Option Nat
  hnext : Option Nat
  addr : BitVec 48
  radiusIdentifier : Int
  ethertype : BitVec 16
  apIdx : BitVec 8
  sockNum : Int
deriving DecidableEq

/-- `STA_HASH`: the last byte of an address. -/
def staHashOf (addr : BitVec 48) : BitVec 8 := addr.extractLsb' 0 8

structure StaTable where
  heap : Nat → Option StaNode
  staHash : BitVec 8 → Option Nat
  staList : Option Nat
  numSta : Int
  /-- `conf->SsidNum`. -/
  ssidNum : Int

/-- More links than any walk can follow. -/
def staWalkLimit : Nat := 1025

namespace StaTable

/-- The table at the start of the daemon. -/
def init (ssidNum : Int) : StaTable := ⟨fun _ => none, fun _ => none, none, 0, ssidNum⟩

/-- `malloc`: it may fail, or else gives memory that is not allocated. -/
def malloc (t : StaTable) (choice : Option Nat) : Option Nat :=
  choice.filter fun p => (t.heap p).isNone

/-- Write to a station. -/
def modify (t : StaTable) (p : Nat) (f : StaNode → StaNode) : Option StaTable := do
  let s ← t.heap p
  some { t with heap := update t.heap p (some (f s)) }

/-- The walk over the hash chain of an address. -/
def staByAddr (t : StaTable) (sa : BitVec 48) : Option (Option Nat) :=
  (follow t.heap StaNode.hnext (fun _ s => s.addr = sa) staWalkLimit none
    (t.staHash (staHashOf sa))).map Prod.snd

def apStaHashAdd (t : StaTable) (sta : Nat) : Option StaTable := do
  let s ← t.heap sta
  let t ← t.modify sta fun s => { s with hnext := t.staHash (staHashOf s.addr) }
  some { t with staHash := update t.staHash (staHashOf s.addr) (some sta) }

/-- `Ap_get_sta`: the station of an address, which is created if there is none. -/
def apGetSta (t : StaTable) (sa : BitVec 48) (apIdx : BitVec 8) (ethertype : BitVec 16)
    (sock : Int) (choice : Option Nat) : Option (Option Nat × StaTable) := do
  match ← t.staByAddr sa with
  | some s => some (some s, t)
  | none =>
    if staCountLimit ≤ t.numSta then some (none, t)
    else match t.malloc choice with
      | none => some (none, t)
      | some s =>
        let node : StaNode := {
          next := t.staList
          hnext := none
          addr := sa
          radiusIdentifier := -1
          ethertype := ethertype
          apIdx := if 1 < t.ssidNum then apIdx else 0
          sockNum := sock }
        let t := { t with
          heap := update t.heap s (some node)
          staList := some s
          numSta := t.numSta + 1 }
        some (some s, ← t.apStaHashAdd s)

/-- `Ap_sta_list_del`: the station is looked for by its pointer. -/
def apStaListDel (t : StaTable) (sta : Nat) : Option StaTable := do
  let s ← t.heap sta
  if t.staList = some sta then some { t with staList := s.next }
  else
    let (_, tmp) ← follow t.heap StaNode.next (fun _ s => s.next = some sta) staWalkLimit none
      t.staList
    match tmp with
    | none => some t
    | some tmp => t.modify tmp fun e => { e with next := s.next }

/-- `Ap_sta_hash_del`: the station is looked for by its address. -/
def apStaHashDel (t : StaTable) (sta : Nat) : Option StaTable := do
  let e ← t.heap sta
  let hash := staHashOf e.addr
  match t.staHash hash with
  | none => some t
  | some s =>
    let first ← t.heap s
    if first.addr = e.addr then
      some { t with staHash := update t.staHash hash first.hnext }
    else
      let (prev, found) ← follow t.heap StaNode.hnext (fun _ s => s.addr = e.addr) staWalkLimit
        (some s) first.hnext
      match found, prev with
      | some found, some prev =>
        let f ← t.heap found
        t.modify prev fun p => { p with hnext := f.hnext }
      | _, _ => some t

def apFreeSta (t : StaTable) (sta : Nat) : Option StaTable := do
  let t ← t.apStaHashDel sta
  let t ← t.apStaListDel sta
  some { t with numSta := t.numSta - 1, heap := update t.heap sta none }

def freeLoop : Nat → Option Nat → StaTable → Option StaTable
  | 0, _, _ => none
  | _ + 1, none, t => some t
  | n + 1, some prev, t => do
    let s ← t.heap prev
    freeLoop n s.next (← t.apFreeSta prev)

def apdFreeStas (t : StaTable) : Option StaTable := freeLoop staWalkLimit t.staList t

end StaTable

inductive StaCall where
  | getSta (sa : BitVec 48) (apIdx : BitVec 8) (ethertype : BitVec 16) (sock : Int)
      (choice : Option Nat)
  | freeSta (sta : Nat)
  | freeStas

def StaTable.call (t : StaTable) : StaCall → Option StaTable
  | .getSta sa apIdx ethertype sock choice =>
    (t.apGetSta sa apIdx ethertype sock choice).map Prod.snd
  | .freeSta sta => t.apFreeSta sta
  | .freeStas => t.apdFreeStas

end RalinkSdk.Dot1x
