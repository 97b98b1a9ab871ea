import Mathlib.Data.BitVec
import Mathlib.Logic.Function.Basic
import RalinkSdk.Lib.Run

/-!
# Accounting and meter groups of the hardware NAT

The rules of the accounting (AC) table and of the meter (MTR) table are in a list each.  Every
rule has a group of the hardware, and eight bytes of bits say which of the 64 groups are taken.
The registers that `SyncAcTbl` and `SyncMtrTbl` write are left out.  `none` stands for a write
outside the eight bytes.

## Source

`net/nat/hw_nat/ac_policy.c`, `net/nat/hw_nat/ac_policy.h`, `net/nat/hw_nat/mtr_policy.c`,
`net/nat/hw_nat/mtr_policy.h`.
-/

namespace RalinkSdk.HwNat

open Lib

/-! ## Groups -/

/-- `AcFreeList`, `MtrFreeList`: a bit is set while its group is taken. -/
abbrev FreeList := Fin 8 → BitVec 8

/-- The inner loop over the bits of a byte. -/
def freeBit (byte : BitVec 8) : Option Nat :=
  (List.range 8).find? fun j => byte &&& (1#8 <<< j) = 0

/-- The two loops: the first byte and bit that are free. -/
def findFree (l : FreeList) : Option (Fin 8 × Nat) :=
  (List.finRange 8).findSome? fun i => (freeBit (l i)).map fun j => (i, j)

/-- `PpeGetFreeAcGrp`, `PpeGetFreeMtrGrp`: the first free group is taken; -1 if there is none. -/
def ppeGetFreeGrp (l : FreeList) : Int × FreeList :=
  match findFree l with
  | some (i, j) => ((i.val * 8 + j : Nat), Function.update l i (l i ||| 1#8 <<< j))
  | none => (-1, l)

def ppeSetFreeGrp (idx : BitVec 32) (l : FreeList) : Option FreeList :=
  if h : idx.toNat / 8 < 8 then
    some (Function.update l ⟨idx.toNat / 8, h⟩
      (l ⟨idx.toNat / 8, h⟩ &&& ~~~(1#8 <<< (idx.toNat % 8))))
  else none

/-- A list of rules with its groups. -/
structure PlcyTbl (ν : Type) where
  list : List ν
  freeList : FreeList

/-- The table at the start of the module. -/
def PlcyTbl.init {ν : Type} : PlcyTbl ν := ⟨[], fun _ => 0⟩

inductive Result where
  | success
  | fail
deriving DecidableEq

/-! ## The accounting table -/

inductive AcType where
  | preAc
  | postAc
deriving DecidableEq

inductive AcRuleType where
  | macGroup
  | ipGroup
  | vlanGroup
deriving DecidableEq

structure AcPlcyNode where
  type : AcType
  ruleType : AcRuleType
  mac : BitVec 48
  ipS : BitVec 32
  ipE : BitVec 32
  vlan : BitVec 12
  agIdx : BitVec 8
deriving DecidableEq

/-- The comparison of `AcDelNode`, by the kind of rule that is looked for. -/
def AcPlcyNode.sameRule (new node : AcPlcyNode) : Bool :=
  match new.ruleType with
  | .macGroup => node.mac = new.mac
  | .ipGroup => node.ipS = new.ipS ∧ node.ipE = new.ipE
  | .vlanGroup => node.vlan = new.vlan

def acExistNode (new : AcPlcyNode) (t : PlcyTbl AcPlcyNode) : Option AcPlcyNode :=
  t.list.find? fun node => new.sameRule node && node.type = new.type

/-- `AcAddNode`; `kmalloc` says whether the allocation succeeds. -/
def acAddNode (new : AcPlcyNode) (kmalloc : Bool) (t : PlcyTbl AcPlcyNode) :
    Result × PlcyTbl AcPlcyNode :=
  match acExistNode new t with
  | some _ => (.success, t)
  | none =>
    if kmalloc then
      let (idx, freeList) := ppeGetFreeGrp t.freeList
      (.success, ⟨t.list ++ [{ new with agIdx := BitVec.ofInt 8 idx }], freeList⟩)
    else (.fail, t)

/-- `AcDelNode`: the first rule that compares equal, whatever its type. -/
def acDelNode (del : AcPlcyNode) (t : PlcyTbl AcPlcyNode) :
    Option (Result × PlcyTbl AcPlcyNode) :=
  match t.list.find? del.sameRule with
  | none => some (.fail, t)
  | some node => do
    let freeList ← ppeSetFreeGrp (node.agIdx.setWidth 32) t.freeList
    some (.success, ⟨t.list.eraseP del.sameRule, freeList⟩)

def acCleanTbl (t : PlcyTbl AcPlcyNode) : PlcyTbl AcPlcyNode := { t with list := [] }

/-! ## The meter table -/

inductive MtrType where
  | preMtr
  | postMtr
deriving DecidableEq

inductive MtrRuleType where
  | macGroup
  | ipGroup
  | syn
  | fin
  | protocolUdp
  | protocolIcmp
deriving DecidableEq

structure MtrPlcyNode where
  type : MtrType
  ruleType : MtrRuleType
  mac : BitVec 48
  ipS : BitVec 32
  ipE : BitVec 32
  mgNum : BitVec 32
  mtrInfo : BitVec 32
deriving DecidableEq

/-- The comparison of `MtrDelNode`, by the kind of rule that is looked for. -/
def MtrPlcyNode.sameRule (new node : MtrPlcyNode) : Bool :=
  match new.ruleType with
  | .macGroup => node.mac = new.mac
  | .ipGroup => node.ipS = new.ipS ∧ node.ipE = new.ipE
  | kind => node.ruleType = kind

/-- The comparison of `MtrExistNode`: the type counts for addresses only. -/
def MtrPlcyNode.exists (new node : MtrPlcyNode) : Bool :=
  match new.ruleType with
  | .macGroup | .ipGroup => new.sameRule node && node.type = new.type
  | _ => new.sameRule node

/-- `MtrAddNode`: a rule that exists takes over the new limits. -/
def mtrAddNode (new : MtrPlcyNode) (kmalloc : Bool) (t : PlcyTbl MtrPlcyNode) :
    Result × PlcyTbl MtrPlcyNode :=
  match t.list.findIdx? new.exists with
  | some i =>
    (.success, { t with list := t.list.modify i fun node => { node with mtrInfo := new.mtrInfo } })
  | none =>
    if kmalloc then
      let (idx, freeList) := ppeGetFreeGrp t.freeList
      (.success, ⟨t.list ++ [{ new with mgNum := BitVec.ofInt 32 idx }], freeList⟩)
    else (.fail, t)

def mtrDelNode (del : MtrPlcyNode) (t : PlcyTbl MtrPlcyNode) :
    Option (Result × PlcyTbl MtrPlcyNode) :=
  match t.list.find? del.sameRule with
  | none => some (.fail, t)
  | some node => do
    let freeList ← ppeSetFreeGrp node.mgNum t.freeList
    some (.success, ⟨t.list.eraseP del.sameRule, freeList⟩)

def mtrCleanTbl (t : PlcyTbl MtrPlcyNode) : PlcyTbl MtrPlcyNode := { t with list := [] }

/-! ## Operations -/

inductive PlcyOp (ν : Type) where
  | add (new : ν) (kmalloc : Bool)
  | del (node : ν)
  | clean
deriving DecidableEq

/-- An operation on the accounting table, with its result. -/
def acCall (t : PlcyTbl AcPlcyNode) : PlcyOp AcPlcyNode → Option (Result × PlcyTbl AcPlcyNode)
  | .add new kmalloc => some (acAddNode new kmalloc t)
  | .del node => acDelNode node t
  | .clean => some (.success, acCleanTbl t)

/-- An operation on the meter table, with its result. -/
def mtrCall (t : PlcyTbl MtrPlcyNode) : PlcyOp MtrPlcyNode → Option (Result × PlcyTbl MtrPlcyNode)
  | .add new kmalloc => some (mtrAddNode new kmalloc t)
  | .del node => mtrDelNode node t
  | .clean => some (.success, mtrCleanTbl t)

end RalinkSdk.HwNat
