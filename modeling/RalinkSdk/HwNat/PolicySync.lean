import RalinkSdk.HwNat.Acl
import RalinkSdk.HwNat.Policy
import RalinkSdk.Lib.TableWrite

/-!
# Writing the metering and accounting rules

`SyncMtrTbl` and `SyncAcTbl` write their lists of rules anew after every change.  The rules for
packets that come in and those for packets that go out have a part of the policy table each, with
a pointer of its own, and each part has to be enabled.  `SyncMtrTbl` enables the one for packets
that go out only if there is no rule for those that come in.

What is written to the policy table is recorded, with the part that it is meant for.

## Source

`net/nat/hw_nat/mtr_policy.c`, `net/nat/hw_nat/ac_policy.c`, `net/nat/hw_nat/hwnat_ioctl.c`
(`PpeSetRuleSize` and the functions that reset a pointer), `net/nat/hw_nat/policy.h`.
-/

namespace RalinkSdk.HwNat

open Function

open Lib

/-! ## The parts of the policy table -/

/-- The arguments of `PpeSetRuleSize`. -/
structure RuleSize where
  preAcl : BitVec 16
  preMeter : BitVec 16
  preAc : BitVec 16
  postMeter : BitVec 16
  postAc : BitVec 16

namespace RuleSize

def preMtrStartAddr (size : RuleSize) : BitVec 16 := 0 + size.preAcl

def preAcStartAddr (size : RuleSize) : BitVec 16 := 0 + size.preAcl + size.preMeter

def postMtrStartAddr (size : RuleSize) : BitVec 16 :=
  0 + size.preAcl + size.preMeter + size.preAc

def postAcStartAddr (size : RuleSize) : BitVec 16 :=
  0 + size.preAcl + size.preMeter + size.preAc + size.postMeter

/-- The start and the size of a part for metering rules. -/
def mtrPart (size : RuleSize) : MtrType → BitVec 16 × BitVec 16
  | .preMtr => (size.preMtrStartAddr, size.preMeter)
  | .postMtr => (size.postMtrStartAddr, size.postMeter)

/-- The start and the size of a part for accounting rules. -/
def acPart (size : RuleSize) : AcType → BitVec 16 × BitVec 16
  | .preAc => (size.preAcStartAddr, size.preAc)
  | .postAc => (size.postAcStartAddr, size.postAc)

end RuleSize

/-- What goes to the policy table: the part that it is meant for, the index and the entry. -/
structure PlcyWrite (τ ε : Type) where
  part : τ
  index : BitVec 9
  entry : ε

/-- The registers of the two parts, that is the end in `PPE_PRE_MTR` and the like and the bits in
    `PPE_FLOW_SET`, and what has been written. -/
structure PlcyHw (τ ε : Type) where
  last : τ → BitVec 9
  ebl : τ → Bool
  writes : List (PlcyWrite τ ε)

section

variable {τ ε : Type} [DecidableEq τ]

/-- `PpeSetPreMtrEbl(0)` and the like, which also reset the pointer. -/
def PlcyHw.disable (start : τ → BitVec 16) (t : τ) (s : PlcyHw τ ε) : PlcyHw τ ε :=
  { s with
    ebl := update s.ebl t false
    last := update s.last t ((start t).setWidth 9) }

/-- `PpeSetPreMtrEbl(1)` and the like. -/
def PlcyHw.enable (t : τ) (s : PlcyHw τ ε) : PlcyHw τ ε :=
  { s with ebl := update s.ebl t true }

/-- `PpeInsMtrEntry`, `PpeInsAcEntry`. -/
def PlcyHw.insEntry (entry : ε) (t : τ) (s : PlcyHw τ ε) : PlcyHw τ ε :=
  { s with
    writes := s.writes ++ [⟨t, s.last t, entry⟩]
    last := update s.last t (s.last t + 1) }

end

/-! ## Metering rules -/

/-- What an entry for metering looks at. -/
inductive MtrMatch where
  | mac (dir : L2RuleDir) (mac : BitVec 48)
  | ip (dir : L3RuleDir) (ip : BitVec 32) (rngM : BitVec 8) (rngE : BitVec 5)
  | tcpFlag (flag : BitVec 6)
  | prot (prot : BitVec 8)
deriving DecidableEq

structure MtrEntry where
  what : MtrMatch
  mg : BitVec 6
deriving DecidableEq

/-- The policy table and the meter table. -/
structure MtrHw where
  policy : PlcyHw MtrType MtrEntry
  meters : BitVec 32 → BitVec 32

def ppeInsMtrEntry (node : MtrPlcyNode) (what : MtrMatch) (s : MtrHw) : MtrHw :=
  { s with policy := s.policy.insEntry ⟨what, node.mgNum.setWidth 6⟩ node.type }

/-- `PpeInsMtrTbl`.  The union holds the mode in the lowest bit, and above it the size of the
    bucket with the token rate or with the interval. -/
def ppeInsMtrTbl (node : MtrPlcyNode) (s : MtrHw) : MtrHw :=
  -- by bytes there are 17 bits to copy, by packets 11
  let entry := if node.mtrInfo &&& 1 = 0 then node.mtrInfo &&& 0x1FFFF else node.mtrInfo &&& 0x7FF
  { s with meters := update s.meters node.mgNum entry }

def mtrInsMac (node : MtrPlcyNode) (s : MtrHw) : MtrHw :=
  let dir := if node.type = .preMtr then .smac else .dmac
  ppeInsMtrTbl node (ppeInsMtrEntry node (.mac dir node.mac) s)

def mtrInsIp (node : MtrPlcyNode) (s : MtrHw) : MtrHw :=
  let (m, e) := calIpRange node.ipS node.ipE
  let dir := if node.type = .preMtr then .sip else .dip
  ppeInsMtrTbl node (ppeInsMtrEntry node (.ip dir node.ipS m e) s)

/-- What `MtrInsSYN`, `MtrInsFIN` and `MtrInsProtocol` have in common: there is no entry for
    packets that go out. -/
def mtrInsL4 (what : MtrMatch) (node : MtrPlcyNode) (s : MtrHw) : MtrHw :=
  ppeInsMtrTbl node (if node.type = .preMtr then ppeInsMtrEntry node what s else s)

def mtrInsSYN (node : MtrPlcyNode) (s : MtrHw) : MtrHw := mtrInsL4 (.tcpFlag 2) node s

def mtrInsFIN (node : MtrPlcyNode) (s : MtrHw) : MtrHw := mtrInsL4 (.tcpFlag 1) node s

def mtrInsProtocol (node : MtrPlcyNode) (s : MtrHw) : MtrHw :=
  mtrInsL4 (.prot (if node.ruleType = .protocolUdp then 0x11 else 1)) node s

/-- The `switch` of `SyncMtrTbl`. -/
def mtrInsNode (s : MtrHw) (node : MtrPlcyNode) : MtrHw :=
  match node.ruleType with
  | .macGroup => mtrInsMac node s
  | .ipGroup => mtrInsIp node s
  | .syn => mtrInsSYN node s
  | .fin => mtrInsFIN node s
  | .protocolUdp | .protocolIcmp => mtrInsProtocol node s

def syncMtrTbl (size : RuleSize) (list : List MtrPlcyNode) (s : MtrHw) : MtrHw :=
  let start := fun t => (size.mtrPart t).1
  -- both parts are written anew from their start
  let s₁ := { s with policy := (s.policy.disable start .preMtr).disable start .postMtr }
  let s₂ := list.foldl mtrInsNode s₁
  let preRuleFound := list.any fun node => node.type = .preMtr
  let postRuleFound := list.any fun node => node.type ≠ .preMtr
  -- `else if`: with rules of both types the second part stays disabled
  if preRuleFound then { s₂ with policy := s₂.policy.enable .preMtr }
  else if postRuleFound then { s₂ with policy := s₂.policy.enable .postMtr }
  else s₂

/-! ## Accounting rules -/

/-- What an entry for accounting looks at. -/
inductive AcMatch where
  | mac (dir : L2RuleDir) (mac : BitVec 48)
  | ip (dir : L3RuleDir) (ip : BitVec 32) (rngM : BitVec 8) (rngE : BitVec 5)
  | vlan (vid : BitVec 12)
deriving DecidableEq

structure AcEntry where
  what : AcMatch
  ag : BitVec 6
deriving DecidableEq

def acMatchOf (node : AcPlcyNode) : AcMatch :=
  match node.ruleType with
  | .macGroup => .mac (if node.type = .preAc then .smac else .dmac) node.mac
  | .ipGroup =>
    let (m, e) := calIpRange node.ipS node.ipE
    .ip (if node.type = .preAc then .sip else .dip) node.ipS m e
  | .vlanGroup => .vlan node.vlan

/-- The `switch` of `SyncAcTbl`, with `PpeInsAcEntry`. -/
def acInsNode (s : PlcyHw AcType AcEntry) (node : AcPlcyNode) : PlcyHw AcType AcEntry :=
  s.insEntry ⟨acMatchOf node, node.agIdx.setWidth 6⟩ node.type

def syncAcTbl (size : RuleSize) (list : List AcPlcyNode) (s : PlcyHw AcType AcEntry) :
    PlcyHw AcType AcEntry :=
  let start := fun t => (size.acPart t).1
  let s₁ := (s.disable start .preAc).disable start .postAc
  let s₂ := list.foldl acInsNode s₁
  let preRuleFound := list.any fun node => node.type = .preAc
  let postRuleFound := list.any fun node => node.type ≠ .preAc
  -- two tests, one for each part
  let s₃ := if preRuleFound then s₂.enable .preAc else s₂
  if postRuleFound then s₃.enable .postAc else s₃

end RalinkSdk.HwNat
