import Mathlib.Data.BitVec
import RalinkSdk.Lib.HashChain
import RalinkSdk.Lib.Run

/-!
# The station table of the access point

`MAC_TABLE`: an array of entries with hash chains threaded through it, and the counters of the
table and of the BSSes.  Of an entry the fields are kept that these functions read.  `none`
stands for an access outside an array, or for a walk that does not end.

## Source

`common/cmm_data.c`, `include/rtmp.h`, `include/rtmp_def.h`, `include/mlme.h`,
`include/os/rt_drv.h`, for a driver in AP mode.
-/

namespace RalinkSdk.MacTab

open Function List

open Lib

def maxLenOfMacTable : Nat := 32

def hwBeaconMaxNum : Nat := 16

def minNetDeviceForWds : Nat := 0x10

def minNetDeviceForApcli : Nat := 0x20

inductive EntryType where
  | none
  | client
  | wds
  | apcli
deriving DecidableEq

/-- `Sst`, the state of the station. -/
inductive Sst where
  | notAuth
  | auth
  | assoc
deriving DecidableEq

abbrev Slot := Fin maxLenOfMacTable

structure MacTableEntry where
  entryType : EntryType
  pNext : Option Slot
  addr : BitVec 48
  aid : BitVec 16
  apidx : BitVec 8
  sst : Sst
deriving DecidableEq

def zeroEntry : MacTableEntry := ⟨.none, none, 0, 0, 0, .notAuth⟩

/-- `MAC_ADDR_HASH_INDEX`: the exclusive or of the six bytes. -/
def macAddrHashIndex (addr : BitVec 48) : BitVec 8 :=
  addr.extractLsb' 40 8 ^^^ addr.extractLsb' 32 8 ^^^ addr.extractLsb' 24 8 ^^^
    addr.extractLsb' 16 8 ^^^ addr.extractLsb' 8 8 ^^^ addr.extractLsb' 0 8

/-- The configuration that the table reads. -/
structure ApCfg where
  bssidNum : Nat
  /-- `MAX_MBSSID_NUM`. -/
  maxMbssidNum : Nat
  maxStaNum : Fin hwBeaconMaxNum → BitVec 8

structure MacTable where
  hash : BitVec 8 → Option Slot
  content : Slot → MacTableEntry
  size : BitVec 16
  staCount : Fin hwBeaconMaxNum → BitVec 8
  entryClientCount : BitVec 8

namespace MacTable

/-- The table at the start of the driver. -/
def init : MacTable := ⟨fun _ => none, fun _ => zeroEntry, 0, fun _ => 0, 0⟩

/-- Write an entry. -/
def put (t : MacTable) (i : Slot) (e : MacTableEntry) : MacTable :=
  { t with content := update t.content i e }

/-- Reading an entry of the array. -/
def read (t : MacTable) (i : Slot) : Option MacTableEntry := some (t.content i)

/-- `MacTableLookup`: a chain is followed up to an entry that is not in use. -/
def macTableLookup (t : MacTable) (addr : BitVec 48) : Option (Option Slot) :=
  (follow t.read MacTableEntry.pNext (fun _ e => e.entryType = .none ∨ e.addr = addr)
    (maxLenOfMacTable + 1) none (t.hash (macAddrHashIndex addr))).map Prod.snd

/-- The kind of entry that an index asks for. -/
def entryTypeOf (apidx : Nat) : EntryType :=
  if minNetDeviceForApcli ≤ apidx then .apcli
  else if minNetDeviceForWds ≤ apidx then .wds
  else .client

/-- The index that an entry keeps. -/
def keptApidx (apidx : Nat) : BitVec 8 :=
  match entryTypeOf apidx with
  | .apcli => BitVec.ofNat 8 (apidx - minNetDeviceForApcli)
  | .wds => BitVec.ofNat 8 (apidx - minNetDeviceForWds)
  | _ => BitVec.ofNat 8 apidx

/-- `MBSS_MR_APIDX_SANITY_CHECK`. -/
def sanityApidx (cfg : ApCfg) (apidx : Nat) : Nat :=
  if cfg.maxMbssidNum ≤ apidx ∨ hwBeaconMaxNum ≤ apidx then 0 else apidx

/-- The BSS has as many stations as it may have. -/
def bssFull (cfg : ApCfg) (t : MacTable) (apidx : Nat) : Bool :=
  if h : apidx < hwBeaconMaxNum then
    apidx < cfg.bssidNum ∧ apidx < cfg.maxMbssidNum ∧ cfg.maxStaNum ⟨apidx, h⟩ ≠ 0 ∧
      cfg.maxStaNum ⟨apidx, h⟩ ≤ t.staCount ⟨apidx, h⟩
  else false

/-- The first slot that is not in use, from slot 1 on. -/
def freeSlot (t : MacTable) : Option Slot :=
  (finRange maxLenOfMacTable).find? fun i => 1 ≤ i.val ∧ (t.content i).entryType = .none

def countClient (cfg : ApCfg) (t : MacTable) (apidx : Nat) : Option MacTable :=
  if h : sanityApidx cfg apidx < hwBeaconMaxNum then
    some { t with
      staCount := update t.staCount ⟨sanityApidx cfg apidx, h⟩
        (t.staCount ⟨sanityApidx cfg apidx, h⟩ + 1)
      entryClientCount := t.entryClientCount + 1 }
  else none

/-- The new entry goes to the end of its hash chain. -/
def linkEntry (t : MacTable) (i : Slot) (addr : BitVec 48) : Option MacTable :=
  match t.hash (macAddrHashIndex addr) with
  | none => some { t with hash := update t.hash (macAddrHashIndex addr) (some i) }
  | some first => do
    let (_, last) ← follow t.read MacTableEntry.pNext (fun _ e => e.pNext = none)
      (maxLenOfMacTable + 1) none (some first)
    match last with
    | some last => some (t.put last { t.content last with pNext := some i })
    | none => none

def macTableInsertEntry (cfg : ApCfg) (t : MacTable) (addr : BitVec 48) (apidx : Nat) :
    Option (Option Slot × MacTable) :=
  if maxLenOfMacTable ≤ t.size.toNat then some (none, t)
  else match t.freeSlot with
    | none => some (none, t)
    | some i =>
      if entryTypeOf apidx = .client ∧ bssFull cfg t apidx then some (none, t.put i zeroEntry)
      else do
        let t := t.put i {
          entryType := entryTypeOf apidx
          pNext := none
          addr := addr
          aid := BitVec.ofNat 16 i.val
          apidx := keptApidx apidx
          sst := .notAuth }
        let t ← if entryTypeOf apidx = .client then t.countClient cfg apidx else some t
        let t := { t with size := t.size + 1 }
        some (some i, ← t.linkEntry i addr)

/-- The hash chain of an address without an entry. -/
def unlinkEntry (t : MacTable) (i : Slot) (addr : BitVec 48) : Option MacTable := do
  let (prev, probe) ← follow t.read MacTableEntry.pNext (fun j _ => j = i)
    (maxLenOfMacTable + 1) none (t.hash (macAddrHashIndex addr))
  match probe, prev with
  | none, _ => some t
  | some _, none =>
    some { t with hash := update t.hash (macAddrHashIndex addr) (t.content i).pNext }
  | some _, some prev => some (t.put prev { t.content prev with pNext := (t.content i).pNext })

/-- A client is no longer counted. -/
def uncountClient (t : MacTable) (apidx : BitVec 8) : Option MacTable :=
  if h : apidx.toNat < hwBeaconMaxNum then
    some { t with
      staCount := update t.staCount ⟨apidx.toNat, h⟩ (t.staCount ⟨apidx.toNat, h⟩ - 1)
      entryClientCount := t.entryClientCount - 1 }
  else none

/-- Only clients are counted at a BSS. -/
def uncountEntry (t : MacTable) (entry : MacTableEntry) : Option MacTable :=
  if entry.entryType = .client then t.uncountClient entry.apidx else some t

def macTableDeleteEntry (t : MacTable) (wcid : Nat) (addr : BitVec 48) :
    Option (Bool × MacTable) :=
  if h : wcid < maxLenOfMacTable then
    let entry := t.content ⟨wcid, h⟩
    if entry.entryType ≠ .none ∧ entry.addr = addr then do
      let t ← t.uncountEntry entry
      let t ← t.unlinkEntry ⟨wcid, h⟩ addr
      let t := t.put ⟨wcid, h⟩ { t.content ⟨wcid, h⟩ with entryType := .none }
      some (true, { t with size := t.size - 1 })
    else some (true, t)
  else some (false, t)

/-- The loop of `MacTableReset` from a slot on.  An associated client gets a frame first; if there
    is no memory for it, the function returns.  The result says whether the loop has ended. -/
def resetLoop (alloc : Slot → Bool) : List Slot → MacTable → Option (Bool × MacTable)
  | [], t => some (true, t)
  | i :: is, t =>
    let entry := t.content i
    if entry.entryType = .client ∧ entry.sst = .assoc ∧ alloc i = false then some (false, t)
    else do
      let (_, t) ← t.macTableDeleteEntry i.val entry.addr
      resetLoop alloc is t

def macTableReset (cfg : ApCfg) (alloc : Slot → Bool) (t : MacTable) : Option MacTable := do
  let (ended, t) ← resetLoop alloc ((finRange maxLenOfMacTable).tail) t
  if ended then
    some { t with
      staCount := fun b => if b.val < cfg.bssidNum then 0 else t.staCount b
      size := 0 }
  else some t

end MacTable

/-- A call of the table.  Other code changes the state of a station (`setSst`). -/
inductive MacTabCall where
  | insert (addr : BitVec 48) (apidx : Nat)
  | delete (wcid : Nat) (addr : BitVec 48)
  | reset (alloc : Slot → Bool)
  | setSst (i : Slot) (sst : Sst)

def MacTable.call (cfg : ApCfg) (t : MacTable) : MacTabCall → Option MacTable
  | .insert addr apidx => (t.macTableInsertEntry cfg addr apidx).map Prod.snd
  | .delete wcid addr => (t.macTableDeleteEntry wcid addr).map Prod.snd
  | .reset alloc => t.macTableReset cfg alloc
  | .setSst i sst => some (t.put i { t.content i with sst })

end RalinkSdk.MacTab
