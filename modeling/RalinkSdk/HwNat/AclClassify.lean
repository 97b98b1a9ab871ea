import RalinkSdk.HwNat.AclChain

/-!
# The classifier of the ACL

`AclClassify` finds the user priority of a packet in the list of rules, in software; the hardware
finds it in the entries that `AclInsSmacETypTOSSipSpDipDp` inserts.  A rule leaves fields open.
The classifier takes a range for open when its end is 0, the hardware when its start is 0; the
classifier tests the VLAN with the end of the TOS range, and takes no protocol for open.

## Source

`net/nat/hw_nat/acl_policy.c`, `net/nat/hw_nat/acl_policy.h`.
-/

namespace RalinkSdk.HwNat

open List

/-! ## The classifier -/

structure AclClassifyKey where
  proto : AclProtoType
  mac : BitVec 48
  dmac : BitVec 48
  ethertype : BitVec 16
  protocol : BitVec 16
  sip : BitVec 32
  dip : BitVec 32
  sp : BitVec 16
  dp : BitVec 16
  tos : BitVec 8
  vid : BitVec 12
deriving DecidableEq

/-- The test of a range: an end of 0 stands for every value. -/
def rangeTest {w : Nat} (first last value : BitVec w) : Bool :=
  (first ≤ value ∧ value ≤ last) ∨ last = 0

/-- The test of an address of the second layer: 0 stands for every address. -/
def macTest (mac value : BitVec 48) : Bool := mac = value ∨ mac = 0

/-- The branches of `AclClassify`, by the kind of the rule. -/
def AclPlcyNode.classifies (node : AclPlcyNode) (key : AclClassifyKey) : Bool :=
  match node.ruleType with
  | .sdmacAny => node.mac = key.mac
  | .etypeAny => node.ethertype = key.ethertype
  | .smacDipAny => macTest node.mac key.mac && rangeTest node.dipS node.dipE key.dip
  | .smacDipTcp | .smacDipUdp =>
    macTest node.mac key.mac && rangeTest node.dipS node.dipE key.dip &&
      rangeTest node.dpS node.dpE key.dp && node.proto = key.proto
  | .sipDipAny => rangeTest node.sipS node.sipE key.sip && rangeTest node.dipS node.dipE key.dip
  | .sipDipTcp | .sipDipUdp =>
    rangeTest node.sipS node.sipE key.sip && rangeTest node.dipS node.dipE key.dip &&
      rangeTest node.dpS node.dpE key.dp && node.proto = key.proto
  | .smacDmacEtypeVidSipDipTosPort =>
    macTest node.mac key.mac && macTest node.dmac key.dmac &&
      (node.protocol = key.protocol ∨ node.protocol = 0) &&
      rangeTest node.sipS node.sipE key.sip && rangeTest node.dipS node.dipE key.dip &&
      rangeTest node.dpS node.dpE key.dp && rangeTest node.spS node.spE key.sp &&
      rangeTest node.tosS node.tosE key.tos &&
      -- the source asks for the end of the TOS range here
      (node.vid = key.vid ∨ node.tosE = 0) &&
      (node.ethertype = key.ethertype ∨ node.ethertype = 0) && node.proto = key.proto

def aclClassify (key : AclClassifyKey) : List AclPlcyNode → BitVec 8
  | [] => 0
  | node :: rest => if node.classifies key then node.up.setWidth 8 else aclClassify key rest

/-! ## What a rule means -/

/-- The fields that a rule can name. -/
inductive AclField where
  | mac
  | dmac
  | ethertype
  | vid
  | protocol
  | sip
  | dip
  | sp
  | dp
  | tos
  | proto
deriving DecidableEq

def AclRuleType.fields : AclRuleType → List AclField
  | .sdmacAny => [.mac]
  | .etypeAny => [.ethertype]
  | .smacDipAny => [.mac, .dip]
  | .smacDipTcp | .smacDipUdp => [.mac, .dip, .dp, .proto]
  | .sipDipAny => [.sip, .dip]
  | .sipDipTcp | .sipDipUdp => [.sip, .dip, .dp, .proto]
  | .smacDmacEtypeVidSipDipTosPort =>
    [.mac, .dmac, .ethertype, .vid, .protocol, .sip, .dip, .sp, .dp, .tos, .proto]

/-- A field of the packet is what the rule says. -/
def AclField.Matches (node : AclPlcyNode) (key : AclClassifyKey) : AclField → Prop
  | mac => node.mac = key.mac
  | dmac => node.dmac = key.dmac
  | ethertype => node.ethertype = key.ethertype
  | vid => node.vid = key.vid
  | protocol => node.protocol = key.protocol
  | sip => node.sipS ≤ key.sip ∧ key.sip ≤ node.sipE
  | dip => node.dipS ≤ key.dip ∧ key.dip ≤ node.dipE
  | sp => node.spS ≤ key.sp ∧ key.sp ≤ node.spE
  | dp => node.dpS ≤ key.dp ∧ key.dp ≤ node.dpE
  | tos => node.tosS ≤ key.tos ∧ key.tos ≤ node.tosE
  | proto => node.proto = key.proto

/-- An entry of the hardware looks at a field.  One for TCP and UDP tells no protocol apart. -/
def EntryMatch.LooksAt : EntryMatch → AclField → Prop
  | .mac .smac _, f => f = .mac
  | .mac .dmac _, f => f = .dmac
  | .mac .sdmac _, f => f = .mac ∨ f = .dmac
  | .others etyp vid, f => f = .ethertype ∧ etyp ≠ 0 ∨ f = .vid ∧ vid ≠ 0
  | .qos _ _, f => f = .tos
  | .ip .sip _ _ _, f => f = .sip
  | .ip .dip _ _ _, f => f = .dip
  | .prot _, f => f = .protocol
  | .port .sport _ _ tu, f => f = .sp ∨ f = .proto ∧ tu ≠ .fltTcpUdp
  | .port .dport _ _ tu, f => f = .dp ∨ f = .proto ∧ tu ≠ .fltTcpUdp

def AclField.Emitted (node : AclPlcyNode) (f : AclField) : Prop :=
  ∃ e ∈ aclInsSmacETypTOSSipSpDipDp node, e.what.LooksAt f

/-- An address is left out as 0, a range with the end 0. -/
def AclField.Given (node : AclPlcyNode) : AclField → Prop
  | mac => node.mac ≠ 0
  | sip => node.sipE ≠ 0
  | dip => node.dipE ≠ 0
  | dp => node.dpE ≠ 0
  | _ => True

/-- The rule specifies a field.  In a rule of the longest kind it is the hardware that decides. -/
def AclField.Specified (node : AclPlcyNode) (f : AclField) : Prop :=
  match node.ruleType with
  | .smacDmacEtypeVidSipDipTosPort => f.Emitted node
  | .sdmacAny | .etypeAny => True
  | .smacDipAny | .smacDipTcp | .smacDipUdp | .sipDipAny | .sipDipTcp | .sipDipUdp => f.Given node

/-- Every specified field of a rule is as in the packet. -/
def AclPlcyNode.RuleMatches (node : AclPlcyNode) (key : AclClassifyKey) : Prop :=
  ∀ f ∈ node.ruleType.fields, f.Specified node → f.Matches node key

/-- The priority is that of the first rule that matches; it is 0 if none does. -/
inductive Classified (key : AclClassifyKey) : List AclPlcyNode → BitVec 8 → Prop
  | none : Classified key [] 0
  | found {node : AclPlcyNode} (rest : List AclPlcyNode) (h : node.RuleMatches key) :
    Classified key (node :: rest) (node.up.setWidth 8)
  | skip {node : AclPlcyNode} {rest : List AclPlcyNode} {up : BitVec 8}
    (h : ¬ node.RuleMatches key) (hrest : Classified key rest up) :
    Classified key (node :: rest) up

/-! ## The test of a field -/

/-- The test that the branch for the longest kind of rule makes for a field. -/
def AclField.test (node : AclPlcyNode) (key : AclClassifyKey) : AclField → Bool
  | mac => macTest node.mac key.mac
  | dmac => macTest node.dmac key.dmac
  | ethertype => node.ethertype = key.ethertype ∨ node.ethertype = 0
  | vid => node.vid = key.vid ∨ node.tosE = 0
  | protocol => node.protocol = key.protocol ∨ node.protocol = 0
  | sip => rangeTest node.sipS node.sipE key.sip
  | dip => rangeTest node.dipS node.dipE key.dip
  | sp => rangeTest node.spS node.spE key.sp
  | dp => rangeTest node.dpS node.dpE key.dp
  | tos => rangeTest node.tosS node.tosE key.tos
  | proto => node.proto = key.proto

/-- The classifier treats a field as unspecified: its test lets every packet pass. -/
def AclField.Ignored (node : AclPlcyNode) (f : AclField) : Prop := ∀ key, f.test node key = true

variable {node : AclPlcyNode}

theorem classifies_iff_test
    (hkind : node.ruleType = .smacDmacEtypeVidSipDipTosPort) (key : AclClassifyKey) :
    node.classifies key ↔ ∀ f ∈ node.ruleType.fields, f.test node key = true := by
  simp only [AclPlcyNode.classifies, hkind, AclRuleType.fields, forall_mem_cons,
    AclField.test, Bool.and_eq_true]
  tauto

/-- A range that every value passes. -/
def OpenRange {w : Nat} (first last : BitVec w) : Prop :=
  last = 0 ∨ first = 0 ∧ last = BitVec.allOnes w

theorem rangeTest_iff {w : Nat} (first last value : BitVec w) :
    rangeTest first last value = true ↔ (first ≤ value ∧ value ≤ last) ∨ last = 0 :=
  decide_eq_true_iff

theorem rangeTest_forall {w : Nat} (first last : BitVec w) :
    (∀ value, rangeTest first last value = true) ↔ OpenRange first last := by
  simp only [rangeTest_iff]
  constructor
  · intro h
    -- 0 and the greatest value pass
    obtain ⟨hfirst, -⟩ | hlast := h 0
    · obtain ⟨-, hall⟩ | hlast := h (BitVec.allOnes w)
      · exact .inr ⟨BitVec.le_zero_iff.mp hfirst, BitVec.allOnes_le_iff.mp hall⟩
      · exact .inl hlast
    · exact .inl hlast
  · rintro (hlast | ⟨rfl, rfl⟩) value
    · exact .inr hlast
    · refine .inl ⟨BitVec.le_def.mpr ?_, BitVec.le_def.mpr ?_⟩
      · exact Nat.zero_le _
      · rw [BitVec.toNat_allOnes]
        exact Nat.le_sub_one_of_lt value.isLt

/-- A packet with nothing in it. -/
def AclClassifyKey.empty : AclClassifyKey := ⟨.any, 0, 0, 0, 0, 0, 0, 0, 0, 0, 0⟩

/-- The classifier treats a field as unspecified just when this holds of the rule. -/
def AclField.IgnoredWhen (node : AclPlcyNode) : AclField → Prop
  | mac => node.mac = 0
  | dmac => node.dmac = 0
  | ethertype => node.ethertype = 0
  | vid => node.tosE = 0
  | protocol => node.protocol = 0
  | sip => OpenRange node.sipS node.sipE
  | dip => OpenRange node.dipS node.dipE
  | sp => OpenRange node.spS node.spE
  | dp => OpenRange node.dpS node.dpE
  | tos => OpenRange node.tosS node.tosE
  | proto => False

theorem ignored_iff (node : AclPlcyNode) (f : AclField) : f.Ignored node ↔ f.IgnoredWhen node := by
  unfold AclField.Ignored
  cases f with
  | mac | dmac | ethertype | protocol =>
    refine ⟨fun h => ?_, fun h key => ?_⟩
    · simpa [AclField.test, macTest, AclClassifyKey.empty, AclField.IgnoredWhen] using h .empty
    · exact decide_eq_true (.inr h)
  | vid =>
    refine ⟨fun h => ?_, fun h key => decide_eq_true (.inr h)⟩
    -- a packet of another VLAN
    have hother := h { AclClassifyKey.empty with vid := ~~~node.vid }
    have hne : node.vid ≠ ~~~node.vid := fun heq => by
      have hbit := congrArg (fun v => v.getLsbD 0) heq
      simp at hbit
    simpa [AclField.test, hne, AclField.IgnoredWhen] using hother
  | sip =>
    rw [AclField.IgnoredWhen, ← rangeTest_forall]
    exact ⟨fun h value => h { AclClassifyKey.empty with sip := value }, fun h key => h key.sip⟩
  | dip =>
    rw [AclField.IgnoredWhen, ← rangeTest_forall]
    exact ⟨fun h value => h { AclClassifyKey.empty with dip := value }, fun h key => h key.dip⟩
  | sp =>
    rw [AclField.IgnoredWhen, ← rangeTest_forall]
    exact ⟨fun h value => h { AclClassifyKey.empty with sp := value }, fun h key => h key.sp⟩
  | dp =>
    rw [AclField.IgnoredWhen, ← rangeTest_forall]
    exact ⟨fun h value => h { AclClassifyKey.empty with dp := value }, fun h key => h key.dp⟩
  | tos =>
    rw [AclField.IgnoredWhen, ← rangeTest_forall]
    exact ⟨fun h value => h { AclClassifyKey.empty with tos := value }, fun h key => h key.tos⟩
  | proto =>
    refine ⟨fun h => ?_, False.elim⟩
    -- a packet has one protocol only
    have htcp := h { AclClassifyKey.empty with proto := .tcp }
    have hudp := h { AclClassifyKey.empty with proto := .udp }
    have heq := (of_decide_eq_true htcp).symm.trans (of_decide_eq_true hudp)
    cases heq

theorem test_iff_matches {f : AclField} (h : ¬ f.Ignored node)
    (key : AclClassifyKey) : f.test node key = true ↔ f.Matches node key := by
  rw [ignored_iff] at h
  cases f with
  | mac | dmac | ethertype | vid | protocol =>
    simp only [AclField.test, macTest, AclField.Matches, decide_eq_true_eq]
    exact or_iff_left h
  | proto => exact decide_eq_true_iff
  | sip | dip | sp | dp | tos =>
    simp only [AclField.test, rangeTest_iff, AclField.Matches]
    exact or_iff_left fun hlast => h (.inl hlast)

/-! ## The entries of the hardware -/

theorem mem_inserted {p : AclPart} :
    p ∈ node.inserted ↔ (node.sets p ∨ p = .dport ∧ node.parts = []) ∧ node.hasEntry p := by
  rw [AclPlcyNode.inserted, mem_filter]
  refine and_congr_left fun _ => ?_
  by_cases hnil : node.parts = []
  · have hnot : ¬ node.sets p := fun hp => by
      have hmem := mem_parts.mpr hp
      rw [hnil] at hmem
      exact not_mem_nil hmem
    rw [if_pos hnil, mem_singleton]
    simp [hnot, hnil]
  · rw [if_neg hnil, mem_parts]
    simp [hnil]

theorem emitted_iff (node : AclPlcyNode) (f : AclField) :
    f.Emitted node ↔ ∃ p ∈ node.inserted, (node.matchOf p).LooksAt f := by
  have hmem : ∀ what, (∃ e ∈ aclInsSmacETypTOSSipSpDipDp node, e.what = what) ↔
      ∃ p ∈ node.inserted, node.matchOf p = what := fun what => by
    rw [← mem_map, ← mem_map, ← what_aclInsSmacETypTOSSipSpDipDp]
  constructor
  · rintro ⟨e, he, hlooks⟩
    obtain ⟨p, hp, heq⟩ := (hmem e.what).mp ⟨e, he, rfl⟩
    exact ⟨p, hp, heq ▸ hlooks⟩
  · rintro ⟨p, hp, hlooks⟩
    obtain ⟨e, he, heq⟩ := (hmem (node.matchOf p)).mpr ⟨p, hp, rfl⟩
    exact ⟨e, he, heq ▸ hlooks⟩

/-- The protocol is TCP or UDP. -/
def AclPlcyNode.oneProto (node : AclPlcyNode) : Prop := node.proto = .tcp ∨ node.proto = .udp

/-- The hardware has an entry for a field just when this holds of the rule. -/
def AclField.EmittedWhen (node : AclPlcyNode) : AclField → Prop
  | mac => node.mac ≠ 0
  | dmac => node.dmac ≠ 0
  | ethertype => node.ethertype ≠ 0
  | vid => node.vid ≠ 0
  | protocol => node.protocol ≠ 0
  | sip => node.sipS ≠ 0
  | dip => node.dipS ≠ 0
  | sp => node.spS ≠ 0 ∧ ¬ node.strayProto
  | dp => (node.dpS ≠ 0 ∨ node.parts = []) ∧ ¬ node.strayProto
  | tos => node.tosS ≠ 0
  | proto => (node.spS ≠ 0 ∨ node.dpS ≠ 0 ∨ node.parts = []) ∧ node.oneProto

theorem AclPart.exists_iff (P : AclPart → Prop) :
    (∃ p, P p) ↔ P smac ∨ P dmac ∨ P others ∨ P tos ∨ P sip ∨ P dip ∨ P prot ∨ P sport ∨ P dport := by
  constructor
  · rintro ⟨p, hp⟩
    cases p <;> simp [hp]
  · rintro (h | h | h | h | h | h | h | h | h) <;> exact ⟨_, h⟩

theorem l4Type_ne_iff (node : AclPlcyNode) : node.proto.l4Type ≠ .fltTcpUdp ↔ node.oneProto := by
  unfold AclPlcyNode.oneProto
  cases node.proto <;> simp [AclProtoType.l4Type]

theorem strayProto_of_oneProto (h : node.oneProto) : node.strayProto = false := by
  unfold AclPlcyNode.strayProto
  obtain hproto | hproto := h <;> rw [hproto]

theorem emitted_iff_when (node : AclPlcyNode) (f : AclField) :
    f.Emitted node ↔ f.EmittedWhen node := by
  rw [emitted_iff, AclPart.exists_iff]
  simp only [mem_inserted, AclPlcyNode.matchOf]
  cases f with
  | mac | dmac | tos | sip | dip | protocol | sp | dp =>
    simp [EntryMatch.LooksAt, AclPlcyNode.sets, AclPlcyNode.hasEntry, AclPart.isPort,
      AclField.EmittedWhen]
  | ethertype | vid =>
    -- the entry is there for either of the two, and compares the one that is not 0
    simp +contextual [EntryMatch.LooksAt, AclPlcyNode.sets, AclPlcyNode.hasEntry, AclPart.isPort,
      AclField.EmittedWhen]
  | proto =>
    have hentry : node.hasEntry .sport = true ∧ node.hasEntry .dport = true ∨ ¬ node.oneProto := by
      by_cases hone : node.oneProto
      · simp [AclPlcyNode.hasEntry, AclPart.isPort, strayProto_of_oneProto hone]
      · exact .inr hone
    simp only [EntryMatch.LooksAt, AclPlcyNode.sets, AclField.EmittedWhen, l4Type_ne_iff]
    obtain ⟨hsport, hdport⟩ | hnot := hentry
    · simp [hsport, hdport, ← or_and_right]
    · simp [hnot]

/-! ## Agreement -/

/-- **Agreement on a list**: the priority is that of the first rule all of whose specified fields
    match, and a field is treated as unspecified when the hardware has no entry for it. -/
structure Agrees (list : List AclPlcyNode) : Prop where
  classified : ∀ key, Classified key list (aclClassify key list)
  unspecified : ∀ node ∈ list, node.ruleType = .smacDmacEtypeVidSipDipTosPort →
    ∀ f : AclField, f.Ignored node ↔ ¬ f.Emitted node

/-- The fields that a rule leaves open are the same for the classifier and for the hardware. -/
structure OpenFieldsAgree (node : AclPlcyNode) : Prop where
  vid : node.tosE = 0 ↔ node.vid = 0
  tos : OpenRange node.tosS node.tosE ↔ node.tosS = 0
  sip : OpenRange node.sipS node.sipE ↔ node.sipS = 0
  dip : OpenRange node.dipS node.dipE ↔ node.dipS = 0
  sp : OpenRange node.spS node.spE ↔ node.spS = 0
  dp : OpenRange node.dpS node.dpE ↔ node.dpS = 0 ∧ node.parts ≠ []
  proto : node.oneProto
  port : node.spS ≠ 0 ∨ node.dpS ≠ 0 ∨ node.parts = []

theorem openFieldsAgree_iff (node : AclPlcyNode) :
    (∀ f : AclField, f.Ignored node ↔ ¬ f.Emitted node) ↔ OpenFieldsAgree node := by
  simp only [ignored_iff, emitted_iff_when]
  constructor
  · intro h
    -- no packet passes for every protocol, so that an entry has to tell it
    have hproto : AclField.proto.EmittedWhen node := by
      by_contra hnot
      exact (h .proto).mpr hnot
    have hknown := strayProto_of_oneProto hproto.2
    exact {
      vid := (h .vid).trans not_not
      tos := (h .tos).trans not_not
      sip := (h .sip).trans not_not
      dip := (h .dip).trans not_not
      sp := (h .sp).trans (by simp [AclField.EmittedWhen, hknown])
      dp := (h .dp).trans (by simp [AclField.EmittedWhen, hknown])
      proto := hproto.2
      port := hproto.1 }
  · intro h f
    have hknown := strayProto_of_oneProto h.proto
    cases f with
    | mac | dmac | ethertype | protocol => exact not_not.symm
    | vid => exact h.vid.trans not_not.symm
    | tos => exact h.tos.trans not_not.symm
    | sip => exact h.sip.trans not_not.symm
    | dip => exact h.dip.trans not_not.symm
    | sp => exact h.sp.trans (by simp [AclField.EmittedWhen, hknown])
    | dp => exact h.dp.trans (by simp [AclField.EmittedWhen, hknown])
    | proto => exact iff_of_false id (not_not_intro ⟨h.port, h.proto⟩)

theorem classifies_longest (hkind : node.ruleType = .smacDmacEtypeVidSipDipTosPort)
    (hagree : ∀ f : AclField, f.Ignored node ↔ ¬ f.Emitted node) (key : AclClassifyKey) :
    node.classifies key = true ↔ node.RuleMatches key := by
  rw [classifies_iff_test hkind]
  refine forall_congr' fun f => forall_congr' fun _ => ?_
  rw [AclField.Specified, hkind]
  by_cases hignored : f.Ignored node
  · -- the field is open for both
    exact iff_of_true (hignored key) fun hemitted => absurd hemitted ((hagree f).mp hignored)
  · rw [test_iff_matches hignored]
    have hemitted : f.Emitted node := not_not.mp fun hnot => hignored ((hagree f).mpr hnot)
    exact ⟨fun hmatches _ => hmatches, fun hmatches => hmatches hemitted⟩

theorem classifies_short
    (hkind : node.ruleType ≠ .smacDmacEtypeVidSipDipTosPort) (key : AclClassifyKey) :
    node.classifies key = true ↔ node.RuleMatches key := by
  unfold AclPlcyNode.RuleMatches AclField.Specified AclPlcyNode.classifies
  cases htype : node.ruleType with
  | smacDmacEtypeVidSipDipTosPort => exact absurd htype hkind
  | sdmacAny | etypeAny => simp [AclRuleType.fields, AclField.Matches]
  | smacDipAny | smacDipTcp | smacDipUdp | sipDipAny | sipDipTcp | sipDipUdp =>
    -- a field that is left out passes, any other is compared
    have hopen : ∀ a c : Prop, (a ∨ c) ↔ (¬ c → a) := fun a c => or_iff_not_imp_right
    simp only [AclRuleType.fields, AclField.Matches, AclField.Given, forall_mem_cons,
      not_mem_nil, false_imp_iff, forall_const, implies_true, and_true, macTest, rangeTest,
      Bool.and_eq_true, decide_eq_true_eq, hopen, and_assoc, ne_eq]

theorem classified_of_forall {key : AclClassifyKey} {list : List AclPlcyNode}
    (h : ∀ node ∈ list, node.classifies key = true ↔ node.RuleMatches key) :
    Classified key list (aclClassify key list) := by
  induction list with
  | nil => exact .none
  | cons node rest ih =>
    obtain ⟨hnode, hrest⟩ := forall_mem_cons.mp h
    rw [aclClassify]
    split
    case isTrue hclassifies => exact .found rest (hnode.mp hclassifies)
    case isFalse hclassifies => exact .skip (fun hm => hclassifies (hnode.mpr hm)) (ih hrest)

/-- **The classifier agrees with the hardware** on a list of rules if and only if the classifier
    leaves the same fields open in every rule of the longest kind. -/
theorem acl_classify_iff (list : List AclPlcyNode) :
    Agrees list ↔ ∀ node ∈ list, node.ruleType = .smacDmacEtypeVidSipDipTosPort →
      OpenFieldsAgree node := by
  constructor
  · intro h node hmem hkind
    exact (openFieldsAgree_iff node).mp (h.unspecified node hmem hkind)
  · intro h
    have hagree : ∀ node ∈ list, node.ruleType = .smacDmacEtypeVidSipDipTosPort →
        ∀ f : AclField, f.Ignored node ↔ ¬ f.Emitted node := fun node hmem hkind =>
      (openFieldsAgree_iff node).mpr (h node hmem hkind)
    refine ⟨fun key => classified_of_forall fun node hmem => ?_, hagree⟩
    by_cases hkind : node.ruleType = .smacDmacEtypeVidSipDipTosPort
    · exact classifies_longest hkind (hagree node hmem hkind) key
    · exact classifies_short hkind key

/-- A rule for TCP in the VLAN 5, with the priority 3. -/
def vlanRule : AclPlcyNode :=
  ⟨.priority, .tcp, .smacDmacEtypeVidSipDipTosPort, 0, 0, 0, 0, 0, 0, 0, 0, 0, 0, 0, 0, 0, 0, 5, 3,
    7⟩

/-- The test of the VLAN asks for the end of the TOS range: a packet of the VLAN 7 gets the
    priority of a rule for the VLAN 5. -/
theorem vlan_taken_for_open : ¬ ∀ list key, Classified key list (aclClassify key list) := by
  intro h
  have hvid : ¬ vlanRule.RuleMatches { AclClassifyKey.empty with proto := .tcp, vid := 7 } := by
    intro hrule
    have hemitted : AclField.vid.Emitted vlanRule :=
      (emitted_iff_when _ _).mpr (show vlanRule.vid ≠ 0 by decide)
    have hfive : vlanRule.vid = 7 := hrule .vid (by decide) hemitted
    exact absurd hfive (by decide)
  have hresult : aclClassify { AclClassifyKey.empty with proto := .tcp, vid := 7 } [vlanRule] = 3 :=
    by decide
  have hclassified := h [vlanRule] { AclClassifyKey.empty with proto := .tcp, vid := 7 }
  rw [hresult] at hclassified
  cases hclassified with
  | found _ hrule => exact hvid hrule
  | skip _ hrest => cases hrest

end RalinkSdk.HwNat
