import Mathlib.Data.BitVec
import Mathlib.Logic.Function.Basic
import RalinkSdk.Lib.Run

/-!
# Access control rules of the hardware NAT

The ACL rules are in a list, and `SyncAclTbl` writes the whole list anew to the front of the
policy table of the hardware after every change.  A rule is a chain of entries, one for each
field that it looks at; after a list that ends in a rule that allows, two default entries follow.
The metering and accounting rules have the rest of the policy table: their part begins at the
index in the register `PPE_PRE_MTR`.

The model is that of a chip that is not an RT6855, where `SpecialTag` stays 0.  The FoE entries,
which no caller asks for, and the texts printed for debugging are left out.

## Source

`net/nat/hw_nat/acl_ioctl.c`, `net/nat/hw_nat/acl_ioctl.h`, `net/nat/hw_nat/acl_policy.c`,
`net/nat/hw_nat/acl_policy.h`, `net/nat/hw_nat/policy.h`, `net/nat/hw_nat/util.c`,
`net/nat/hw_nat/hwnat_ioctl.c`.
-/

namespace RalinkSdk.HwNat

/-! ## Rules -/

/-- `enum AclRuleMethod`; nothing checks the number that the ioctl brings. -/
inductive AclRuleMethod where
  | allow
  | deny
  | priority
  | other (value : BitVec 32)
deriving DecidableEq

/-- `enum AclProtoType`; nothing checks the number that the ioctl brings. -/
inductive AclProtoType where
  | any
  | tcp
  | udp
  | other (value : BitVec 32)
deriving DecidableEq

/-- The kinds of rules: there is an `ACL_ADD_` and an `ACL_DEL_` number for each. -/
inductive AclRuleType where
  | smacDipAny
  | smacDipTcp
  | smacDipUdp
  | sipDipAny
  | sipDipTcp
  | sipDipUdp
  | sdmacAny
  | etypeAny
  | smacDmacEtypeVidSipDipTosPort
deriving DecidableEq

structure AclPlcyNode where
  method : AclRuleMethod
  proto : AclProtoType
  ruleType : AclRuleType
  mac : BitVec 48
  dmac : BitVec 48
  ethertype : BitVec 16
  protocol : BitVec 16
  sipS : BitVec 32
  sipE : BitVec 32
  dipS : BitVec 32
  dipE : BitVec 32
  spS : BitVec 16
  spE : BitVec 16
  dpS : BitVec 16
  dpE : BitVec 16
  tosS : BitVec 8
  tosE : BitVec 8
  vid : BitVec 12
  up : BitVec 3
  pn : BitVec 3
deriving DecidableEq

/-! ## Entries of the policy table -/

/-- The values of `enum FpnType` that the ACL uses. -/
inductive FpnType where
  | frcPriOnly
  | allow
  | drop
deriving DecidableEq

/-- How an entry ends: the next one belongs to the same rule, or the packet is dealt with. -/
inductive EntryEnd where
  | notEntryEnd
  | fp (fpn : FpnType) (up : BitVec 3)
deriving DecidableEq

inductive L2RuleDir where
  | dmac
  | smac
  | sdmac
deriving DecidableEq

inductive L3RuleDir where
  | dip
  | sip
deriving DecidableEq

inductive L4RuleDir where
  | dport
  | sport
deriving DecidableEq

inductive L4Type where
  | fltUdp
  | fltTcp
  | fltTcpUdp
deriving DecidableEq

/-- What an entry looks at.  In `others` a field of 0 is not compared. -/
inductive EntryMatch where
  | mac (dir : L2RuleDir) (mac : BitVec 48)
  | others (etyp : BitVec 16) (vid : BitVec 12)
  | ip (dir : L3RuleDir) (ip : BitVec 32) (rngM : BitVec 8) (rngE : BitVec 5)
  | qos (tosS tosE : BitVec 8)
  | prot (prot : BitVec 8)
  | port (dir : L4RuleDir) (pStart pEnd : BitVec 16) (tu : L4Type)
deriving DecidableEq

/-- An entry of the ACL: `l2_rule`, `l3_rule` or `l4_rule`. -/
structure PolicyEntry where
  what : EntryMatch
  pn : BitVec 3
  last : EntryEnd
deriving DecidableEq

def macReverse (mac : BitVec 48) : BitVec 48 :=
  (List.range 6).foldl (fun r i => r ||| ((mac >>> (8 * i)) &&& 0xFF#48) <<< (40 - 8 * i)) 0

/-- `CalIpRange`: the size of the range as a mantissa and an exponent. -/
def calIpRange (startIp endIp : BitVec 32) : BitVec 8 × BitVec 5 :=
  let range := endIp + 1 - startIp
  match (List.range 32).find? fun i => (range >>> i).getLsbD 0 with
  | some i => ((range >>> i).setWidth 8, BitVec.ofNat 5 i)
  | none => (0, 0)

def entryEndFp (node : AclPlcyNode) : EntryEnd :=
  match node.method with
  | .allow => .fp .allow node.up
  | .priority => .fp .frcPriOnly node.up
  | .deny | .other _ => .fp .drop 0

/-- `AclSetMacEntry` for a source or destination address. -/
def aclSetMacEntry (node : AclPlcyNode) (dir : L2RuleDir) (last : EntryEnd) : PolicyEntry :=
  ⟨.mac dir (macReverse (if dir = .dmac then node.dmac else node.mac)), node.pn, last⟩

def aclSetOthersEntry (node : AclPlcyNode) (last : EntryEnd) : PolicyEntry :=
  ⟨.others node.ethertype node.vid, node.pn, last⟩

def aclSetIpEntry (node : AclPlcyNode) (dir : L3RuleDir) (last : EntryEnd) : PolicyEntry :=
  let (ipS, ipE) := if dir = .sip then (node.sipS, node.sipE) else (node.dipS, node.dipE)
  let (m, e) := calIpRange ipS ipE
  ⟨.ip dir ipS m e, node.pn, last⟩

def aclSetQosEntry (node : AclPlcyNode) (last : EntryEnd) : PolicyEntry :=
  ⟨.qos node.tosS node.tosE, node.pn, last⟩

/-- `AclSetPortEntry` with `DONT_CARE`: the entry compares the protocol. -/
def aclSetProtEntry (node : AclPlcyNode) (last : EntryEnd) : PolicyEntry :=
  ⟨.prot (node.protocol.setWidth 8), node.pn, last⟩

def aclSetPortEntry (node : AclPlcyNode) (dir : L4RuleDir) (tu : L4Type) (last : EntryEnd) :
    PolicyEntry :=
  let (pS, pE) := if dir = .sport then (node.spS, node.spE) else (node.dpS, node.dpE)
  ⟨.port dir pS pE tu, node.pn, last⟩

/-- The branches on the protocol of a rule: there is no entry for a number that is none. -/
def aclSetProtoPortEntry (node : AclPlcyNode) (dir : L4RuleDir) (last : EntryEnd) :
    List PolicyEntry :=
  match node.proto with
  | .tcp => [aclSetPortEntry node dir .fltTcp last]
  | .udp => [aclSetPortEntry node dir .fltUdp last]
  | .any => [aclSetPortEntry node dir .fltTcpUdp last]
  | .other _ => []

/-! ## The entries of a rule -/

def aclInsSDmac (node : AclPlcyNode) : List PolicyEntry :=
  [aclSetMacEntry node .sdmac (entryEndFp node)]

def aclInsEthertype (node : AclPlcyNode) : List PolicyEntry :=
  [aclSetOthersEntry node (entryEndFp node)]

def aclInsDipDp (node : AclPlcyNode) : List PolicyEntry :=
  match node.ruleType with
  | .smacDipAny | .sipDipAny => [aclSetIpEntry node .dip (entryEndFp node)]
  | .smacDipTcp | .sipDipTcp =>
    [aclSetIpEntry node .dip .notEntryEnd, aclSetPortEntry node .dport .fltTcp (entryEndFp node)]
  | .smacDipUdp | .sipDipUdp =>
    [aclSetIpEntry node .dip .notEntryEnd, aclSetPortEntry node .dport .fltUdp (entryEndFp node)]
  | _ => [aclSetIpEntry node .dip .notEntryEnd]

def aclInsSmacDipDp (node : AclPlcyNode) : List PolicyEntry :=
  aclSetMacEntry node .smac .notEntryEnd :: aclInsDipDp node

def aclInsSipDipDp (node : AclPlcyNode) : List PolicyEntry :=
  aclSetIpEntry node .sip .notEntryEnd :: aclInsDipDp node

/-- A field of the longest kind of rule.  A field that is 0 is skipped; the entry is the last one
    and the function returns if no later field is set. -/
def insField (node : AclPlcyNode) (present later : Bool) (entry : EntryEnd → List PolicyEntry)
    (rest : List PolicyEntry) : List PolicyEntry :=
  if present then
    if later then entry .notEntryEnd ++ rest else entry (entryEndFp node)
  else rest

def aclInsSmacETypTOSSipSpDipDp (node : AclPlcyNode) : List PolicyEntry :=
  let smac := node.mac ≠ 0
  let dmac := node.dmac ≠ 0
  let others := node.ethertype ≠ 0 ∨ node.vid ≠ 0
  let tos := node.tosS ≠ 0
  let sip := node.sipS ≠ 0
  let dip := node.dipS ≠ 0
  let prot := node.protocol ≠ 0
  let sp := node.spS ≠ 0
  let dp := node.dpS ≠ 0
  insField node smac (dmac ∨ prot ∨ others ∨ sip ∨ dip ∨ tos ∨ sp ∨ dp)
    (fun last => [aclSetMacEntry node .smac last]) <|
  insField node dmac (others ∨ prot ∨ sip ∨ dip ∨ tos ∨ sp ∨ dp)
    (fun last => [aclSetMacEntry node .dmac last]) <|
  insField node others (prot ∨ sip ∨ dip ∨ tos ∨ sp ∨ dp)
    (fun last => [aclSetOthersEntry node last]) <|
  insField node tos (prot ∨ sip ∨ dip ∨ sp ∨ dp) (fun last => [aclSetQosEntry node last]) <|
  insField node sip (prot ∨ dip ∨ sp ∨ dp) (fun last => [aclSetIpEntry node .sip last]) <|
  insField node dip (prot ∨ sp ∨ dp) (fun last => [aclSetIpEntry node .dip last]) <|
  insField node prot (sp ∨ dp) (fun last => [aclSetProtEntry node last]) <|
  insField node sp dp (aclSetProtoPortEntry node .sport) <|
  aclSetProtoPortEntry node .dport (entryEndFp node)

/-- The entries that `SyncAclTbl` inserts for a rule. -/
def aclInsNode (node : AclPlcyNode) : List PolicyEntry :=
  match node.ruleType with
  | .sdmacAny => aclInsSDmac node
  | .etypeAny => aclInsEthertype node
  | .smacDipAny | .smacDipTcp | .smacDipUdp => aclInsSmacDipDp node
  | .sipDipAny | .sipDipTcp | .sipDipUdp => aclInsSipDipDp node
  | .smacDmacEtypeVidSipDipTosPort => aclInsSmacETypTOSSipSpDipDp node

/-- `AclInsDflAllow`: ARP packets pass. -/
def aclInsDflAllow : PolicyEntry := ⟨.others 0x0806 0, 7, .fp .allow 0⟩

/-- `AclInsDflDeny`: every other packet is dropped. -/
def aclInsDflDeny : PolicyEntry := ⟨.others 0 0, 7, .fp .drop 0⟩

/-! ## The table -/

/-- An index of the policy table: an entry of the ACL or a word `ω` of somebody else. -/
inductive Slot (ω : Type) where
  | acl (entry : PolicyEntry)
  | other (word : ω)

/-- The list of rules, the policy table and the registers: `aclEnd` is the end in `PPE_PRE_ACL`,
    `aclEbl` the ACL bits of `PPE_FLOW_SET`. -/
structure AclTbl (ω : Type) where
  list : List AclPlcyNode
  table : Nat → Slot ω
  aclEnd : BitVec 9
  aclEbl : Bool

inductive AclResult where
  | success
  | fail
  | tblFull
deriving DecidableEq

variable {ω : Type}

/-- `PpeSetPreAclEbl(0)`, which also resets the pointers. -/
def AclTbl.disable (s : AclTbl ω) : AclTbl ω := { s with aclEnd := 0, aclEbl := false }

def ppeInsAclEntry (s : AclTbl ω) (entry : PolicyEntry) : AclTbl ω :=
  { s with table := Function.update s.table s.aclEnd.toNat (.acl entry), aclEnd := s.aclEnd + 1 }

def syncAclTbl (s : AclTbl ω) : AclTbl ω :=
  let s₁ := s.list.foldl (fun s node => (aclInsNode node).foldl ppeInsAclEntry s) s.disable
  match s.list.getLast? with
  | none => s₁
  | some node =>
    let s₂ := if node.method = .allow then
      ppeInsAclEntry (ppeInsAclEntry s₁ aclInsDflAllow) aclInsDflDeny else s₁
    { s₂ with aclEbl := true }

/-- The comparison of `AclExistNode`, by the kind of the new rule. -/
def AclPlcyNode.exists (new node : AclPlcyNode) : Bool :=
  match new.ruleType with
  | .sdmacAny => node.mac = new.mac
  | .etypeAny => node.ethertype = new.ethertype
  | .smacDipAny =>
    node.mac = new.mac ∧ node.dipS = new.dipS ∧ node.dipE = new.dipE ∧ node.proto = new.proto
  | .smacDipTcp | .smacDipUdp =>
    node.mac = new.mac ∧ node.dipS = new.dipS ∧ node.dipE = new.dipE ∧ node.dpS = new.dpS ∧
      node.proto = new.proto
  | .sipDipAny =>
    node.sipS = new.sipS ∧ node.sipE = new.sipE ∧ node.dipS = new.dipS ∧ node.dipE = new.dipE ∧
      node.proto = new.proto
  | .sipDipTcp | .sipDipUdp =>
    node.sipS = new.sipS ∧ node.sipE = new.sipE ∧ node.dipS = new.dipS ∧ node.dipE = new.dipE ∧
      node.dpS = new.dpS ∧ node.proto = new.proto
  | .smacDmacEtypeVidSipDipTosPort =>
    node.mac = new.mac ∧ node.dmac = new.dmac ∧ node.ethertype = new.ethertype ∧
      node.vid = new.vid ∧ node.sipS = new.sipS ∧ node.protocol = new.protocol ∧
      node.sipE = new.sipE ∧ node.tosS = new.tosS ∧ node.tosE = new.tosE ∧
      node.dipS = new.dipS ∧ node.dipE = new.dipE ∧ node.dpS = new.dpS ∧ node.dpE = new.dpE ∧
      node.spS = new.spS ∧ node.spE = new.spE ∧ node.proto = new.proto

/-- The comparison of `AclDelNode`, by the kind of the rule to delete. -/
def AclPlcyNode.deletes (del node : AclPlcyNode) : Bool :=
  match del.ruleType with
  | .sdmacAny => node.mac = del.mac
  | .etypeAny => node.ethertype = del.ethertype
  | .smacDipAny => node.mac = del.mac ∧ node.dipS = del.dipS ∧ node.dipE = del.dipE
  | .smacDipTcp | .smacDipUdp =>
    node.mac = del.mac ∧ node.dipS = del.dipS ∧ node.dipE = del.dipE ∧ node.dpS = del.dpS ∧
      node.dpE = del.dpE ∧ node.proto = del.proto
  | .sipDipAny =>
    node.sipS = del.sipS ∧ node.sipE = del.sipE ∧ node.dipS = del.dipS ∧ node.dipE = del.dipE
  | .sipDipTcp | .sipDipUdp =>
    node.sipS = del.sipS ∧ node.sipE = del.sipE ∧ node.dipS = del.dipS ∧ node.dipE = del.dipE ∧
      node.dpS = del.dpS ∧ node.dpE = del.dpE ∧ node.proto = del.proto
  | .smacDmacEtypeVidSipDipTosPort =>
    node.mac = del.mac ∧ node.dmac = del.dmac ∧ node.vid = del.vid ∧
      node.protocol = del.protocol ∧ node.sipS = del.sipS ∧ node.sipE = del.sipE ∧
      node.spS = del.spS ∧ node.spE = del.spE ∧ node.tosS = del.tosS ∧ node.tosE = del.tosE ∧
      node.dipS = del.dipS ∧ node.dipE = del.dipE ∧ node.dpS = del.dpS ∧ node.dpE = del.dpE ∧
      node.ethertype = del.ethertype ∧ node.proto = del.proto

def aclExistNode (new : AclPlcyNode) (s : AclTbl ω) : Option AclPlcyNode :=
  s.list.find? new.exists

/-- `AclAddNode`; `kmalloc` says whether the allocation succeeds. -/
def aclAddNode (new : AclPlcyNode) (kmalloc : Bool) (s : AclTbl ω) : AclResult × AclTbl ω :=
  match aclExistNode new s with
  | some _ => (.success, s)
  | none =>
    if kmalloc then (.success, syncAclTbl { s with list := s.list ++ [new] }) else (.fail, s)

/-- `AclDelNode`: the first rule that compares equal. -/
def aclDelNode (del : AclPlcyNode) (s : AclTbl ω) : AclResult × AclTbl ω :=
  match s.list.find? del.deletes with
  | none => (.fail, s)
  | some _ => (.success, syncAclTbl { s with list := s.list.eraseP del.deletes })

def aclCleanTbl (s : AclTbl ω) : AclTbl ω := AclTbl.disable { s with list := [] }

/-! ## The ioctls -/

def AclRuleType.ruleSize : AclRuleType → Nat
  | .sdmacAny | .etypeAny => 1
  | .smacDipAny | .sipDipAny => 2
  | .smacDipTcp | .smacDipUdp | .sipDipTcp | .sipDipUdp => 3
  | .smacDmacEtypeVidSipDipTosPort => 7

/-- `AclBndryCheck`; `mtrStr` is `PpeGetPreMtrStr()`. -/
def aclBndryCheck (mtrStr : BitVec 9) (new : AclPlcyNode) (s : AclTbl ω) : AclResult :=
  match aclExistNode new s with
  | some _ => .success
  | none => if s.aclEnd.toNat + new.ruleType.ruleSize ≥ mtrStr.toNat then .tblFull else .success

def AclPlcyNode.handlerProto (node : AclPlcyNode) : AclProtoType :=
  match node.ruleType with
  | .sdmacAny | .etypeAny | .smacDipAny | .sipDipAny => .any
  | .smacDipTcp | .sipDipTcp => .tcp
  | .smacDipUdp | .sipDipUdp => .udp
  | .smacDmacEtypeVidSipDipTosPort => node.proto

def runIoctlAddHandler (mtrStr : BitVec 9) (new : AclPlcyNode) (proto : AclProtoType)
    (kmalloc : Bool) (s : AclTbl ω) : AclResult × AclTbl ω :=
  let new := { new with proto := proto }
  match aclBndryCheck mtrStr new s with
  | .tblFull => (.tblFull, s)
  | _ => aclAddNode new kmalloc s

def runIoctlDelHandler (del : AclPlcyNode) (proto : AclProtoType) (s : AclTbl ω) :
    AclResult × AclTbl ω :=
  aclDelNode { del with proto := proto } s

/-- The commands of `AclIoctl`.  `getAllEntries` only reads; a number that is none of them does
    nothing. -/
inductive AclCmd where
  | add (node : AclPlcyNode) (kmalloc : Bool)
  | del (node : AclPlcyNode)
  | cleanTbl
  | getAllEntries
  | unknown
deriving DecidableEq

def aclIoctl (mtrStr : BitVec 9) (s : AclTbl ω) : AclCmd → AclTbl ω
  | .add node kmalloc => (runIoctlAddHandler mtrStr node node.handlerProto kmalloc s).2
  | .del node => (runIoctlDelHandler node node.handlerProto s).2
  | .cleanTbl => aclCleanTbl s
  | .getAllEntries | .unknown => s

/-- The state after `PpeSetRuleSize`: no rule, and whatever is in the table. -/
def AclTbl.init (table : Nat → ω) : AclTbl ω := ⟨[], fun i => .other (table i), 0, false⟩

end RalinkSdk.HwNat
