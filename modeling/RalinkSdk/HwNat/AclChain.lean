import RalinkSdk.HwNat.AclInv

/-!
# The entries of the longest kind of rule

`AclInsSmacETypTOSSipSpDipDp` has a branch for every part of a rule, and each branch decides by a
test of its own whether a later part follows.  A rule should come out as a chain: an entry for
each part that is set, all but the last one open, the last one with the action.

The branch for the destination port makes no test, so that a rule with no part at all gets an
entry; and a port of a rule whose protocol is no `enum AclProtoType` gets none, which leaves the
entry before it open.

## Source

`net/nat/hw_nat/acl_policy.c`.
-/

namespace RalinkSdk.HwNat

open Lib List

/-! ## Parts of a rule -/

/-- The parts of a rule that have an entry of their own, in the order of the branches. -/
inductive AclPart where
  | smac
  | dmac
  | others
  | tos
  | sip
  | dip
  | prot
  | sport
  | dport
deriving DecidableEq

namespace AclPart

def inOrder : List AclPart := [smac, dmac, others, tos, sip, dip, prot, sport, dport]

/-- The parts whose entry is chosen by the protocol. -/
def isPort : AclPart → Bool
  | sport | dport => true
  | _ => false

end AclPart

/-- The part that an entry looks at; a rule for both addresses is of another kind. -/
def EntryMatch.part : EntryMatch → Option AclPart
  | .mac .smac _ => some .smac
  | .mac .dmac _ => some .dmac
  | .mac .sdmac _ => none
  | .others _ _ => some .others
  | .qos _ _ => some .tos
  | .ip .sip _ _ _ => some .sip
  | .ip .dip _ _ _ => some .dip
  | .prot _ => some .prot
  | .port .sport _ _ _ => some .sport
  | .port .dport _ _ _ => some .dport

/-- A part is specified: the field that its branch tests is not 0. -/
def AclPlcyNode.sets (node : AclPlcyNode) : AclPart → Bool
  | .smac => node.mac ≠ 0
  | .dmac => node.dmac ≠ 0
  | .others => node.ethertype ≠ 0 ∨ node.vid ≠ 0
  | .tos => node.tosS ≠ 0
  | .sip => node.sipS ≠ 0
  | .dip => node.dipS ≠ 0
  | .prot => node.protocol ≠ 0
  | .sport => node.spS ≠ 0
  | .dport => node.dpS ≠ 0

/-- The specified parts of a rule, in the order of the branches. -/
def AclPlcyNode.parts (node : AclPlcyNode) : List AclPart := AclPart.inOrder.filter node.sets

/-- The protocol is none of `enum AclProtoType`. -/
def AclPlcyNode.strayProto (node : AclPlcyNode) : Bool :=
  match node.proto with
  | .other _ => true
  | .any | .tcp | .udp => false

/-- The packets that the entry of a port looks at. -/
def AclProtoType.l4Type : AclProtoType → L4Type
  | .tcp => .fltTcp
  | .udp => .fltUdp
  | .any | .other _ => .fltTcpUdp

/-- What the entry of a part compares. -/
def AclPlcyNode.matchOf (node : AclPlcyNode) : AclPart → EntryMatch
  | .smac => .mac .smac (macReverse node.mac)
  | .dmac => .mac .dmac (macReverse node.dmac)
  | .others => .others node.ethertype node.vid
  | .tos => .qos node.tosS node.tosE
  | .sip => .ip .sip node.sipS (calIpRange node.sipS node.sipE).1 (calIpRange node.sipS node.sipE).2
  | .dip => .ip .dip node.dipS (calIpRange node.dipS node.dipE).1 (calIpRange node.dipS node.dipE).2
  | .prot => .prot (node.protocol.setWidth 8)
  | .sport => .port .sport node.spS node.spE node.proto.l4Type
  | .dport => .port .dport node.dpS node.dpE node.proto.l4Type

@[simp] theorem part_matchOf (node : AclPlcyNode) (p : AclPart) :
    (node.matchOf p).part = some p := by
  cases p <;> rfl

/-- **A well-formed chain**: an entry for each specified part, all of them open but the last one,
    which has the action of the rule. -/
structure IsChain (node : AclPlcyNode) (es : List PolicyEntry) : Prop where
  matches_eq : es.map (fun e => e.what) = node.parts.map node.matchOf
  closed : ∃ init last, es = init ++ [last] ∧ (∀ e ∈ init, e.last = .notEntryEnd) ∧
    last.last = entryEndFp node

/-! ## The branches as one recursion -/

/-- What the branch for a part inserts. -/
def entryOf (node : AclPlcyNode) : AclPart → EntryEnd → List PolicyEntry
  | .smac, last => [aclSetMacEntry node .smac last]
  | .dmac, last => [aclSetMacEntry node .dmac last]
  | .others, last => [aclSetOthersEntry node last]
  | .tos, last => [aclSetQosEntry node last]
  | .sip, last => [aclSetIpEntry node .sip last]
  | .dip, last => [aclSetIpEntry node .dip last]
  | .prot, last => [aclSetProtEntry node last]
  | .sport, last => aclSetProtoPortEntry node .sport last
  | .dport, last => aclSetProtoPortEntry node .dport last

/-- The branches from a part on; the last one makes no test. -/
def insParts (node : AclPlcyNode) : List AclPart → List PolicyEntry
  | [] => []
  | [p] => entryOf node p (entryEndFp node)
  | p :: q :: ps =>
    insField node (node.sets p) ((q :: ps).any node.sets) (entryOf node p)
      (insParts node (q :: ps))

theorem aclInsSmacETypTOSSipSpDipDp_eq (node : AclPlcyNode) :
    aclInsSmacETypTOSSipSpDipDp node = insParts node AclPart.inOrder := by
  simp only [aclInsSmacETypTOSSipSpDipDp, AclPart.inOrder, insParts, AclPlcyNode.sets, any_cons,
    any_nil, Bool.false_or, Bool.decide_or, Bool.or_comm, Bool.or_left_comm, Bool.or_assoc]
  rfl

/-- The branch for a part inserts an entry: it is no port, or the protocol is known. -/
def AclPlcyNode.hasEntry (node : AclPlcyNode) (p : AclPart) : Bool :=
  !(p.isPort && node.strayProto)

theorem aclSetProtoPortEntry_eq (node : AclPlcyNode) (dir : L4RuleDir) (last : EntryEnd)
    (h : node.strayProto = false) :
    aclSetProtoPortEntry node dir last = [aclSetPortEntry node dir node.proto.l4Type last] := by
  unfold AclPlcyNode.strayProto at h
  unfold aclSetProtoPortEntry
  cases hproto : node.proto with
  | tcp | udp | any => rfl
  | other v => simp [hproto] at h

theorem aclSetProtoPortEntry_stray (node : AclPlcyNode) (dir : L4RuleDir) (last : EntryEnd)
    (h : node.strayProto = true) : aclSetProtoPortEntry node dir last = [] := by
  unfold AclPlcyNode.strayProto at h
  unfold aclSetProtoPortEntry
  cases hproto : node.proto with
  | tcp | udp | any => simp [hproto] at h
  | other v => rfl

variable {node : AclPlcyNode}

theorem entryOf_eq {p : AclPart} (h : node.hasEntry p) (last : EntryEnd) :
    ∃ e, entryOf node p last = [e] ∧ e.what = node.matchOf p ∧ e.last = last := by
  cases p with
  | smac | dmac | others | tos | sip | dip | prot => exact ⟨_, rfl, rfl, rfl⟩
  | sport | dport =>
    have hknown : node.strayProto = false := by simpa [AclPlcyNode.hasEntry, AclPart.isPort] using h
    exact ⟨_, aclSetProtoPortEntry_eq node _ last hknown, rfl, rfl⟩

theorem entryOf_stray {p : AclPart} (h : node.hasEntry p = false)
    (last : EntryEnd) : entryOf node p last = [] := by
  have hboth : p.isPort = true ∧ node.strayProto = true := by
    simpa [AclPlcyNode.hasEntry] using h
  cases p with
  | smac | dmac | others | tos | sip | dip | prot => exact absurd hboth.1 (by decide)
  | sport | dport => exact aclSetProtoPortEntry_stray node _ last hboth.2

theorem what_entryOf (node : AclPlcyNode) (p : AclPart) (last : EntryEnd) :
    (entryOf node p last).map (fun e => e.what) =
      ([p].filter node.hasEntry).map node.matchOf := by
  cases h : node.hasEntry p with
  | true =>
    obtain ⟨e, he, hwhat, -⟩ := entryOf_eq h last
    simp [he, hwhat, h]
  | false => simp [entryOf_stray h, h]

theorem what_insParts {ps : List AclPart} (hany : ps.any node.sets) :
    (insParts node ps).map (fun e => e.what) =
      ((ps.filter node.sets).filter node.hasEntry).map node.matchOf := by
  induction ps with
  | nil => exact absurd hany Bool.false_ne_true
  | cons p ps ih =>
    cases ps with
    | nil =>
      have hp : node.sets p = true := by simpa using hany
      rw [insParts, what_entryOf]
      simp [hp]
    | cons q ps =>
      rw [insParts, insField]
      cases hp : node.sets p with
      | false =>
        -- the branch is skipped, so that a later part is set
        rw [any_cons, hp, Bool.false_or] at hany
        have hskip : (p :: q :: ps).filter node.sets = (q :: ps).filter node.sets :=
          filter_cons_of_neg (by simp [hp])
        rw [if_neg Bool.false_ne_true, ih hany, hskip]
      | true =>
        rw [if_pos rfl, filter_cons_of_pos hp]
        cases hlater : (q :: ps).any node.sets with
        | true =>
          rw [if_pos rfl, map_append, what_entryOf, ih hlater, ← map_append, ← filter_append]
          rfl
        | false =>
          -- nothing is left for the branches behind the last entry
          have hnone : (q :: ps).filter node.sets = [] := by
            rw [filter_eq_nil_iff]
            exact fun r hr => by simpa using any_eq_false.mp hlater r hr
          rw [if_neg Bool.false_ne_true, what_entryOf, hnone]

theorem closed_insParts {ps : List AclPart} (hany : ps.any node.sets)
    (hentry : ∀ p, node.sets p → node.hasEntry p) :
    ∃ init last, insParts node ps = init ++ [last] ∧ (∀ e ∈ init, e.last = .notEntryEnd) ∧
      last.last = entryEndFp node := by
  induction ps with
  | nil => exact absurd hany Bool.false_ne_true
  | cons p ps ih =>
    have hclose : node.sets p = true → ∃ e, entryOf node p (entryEndFp node) = [] ++ [e] ∧
        e.last = entryEndFp node := fun hp => by
      obtain ⟨e, he, -, hlast⟩ := entryOf_eq (hentry p hp) (entryEndFp node)
      exact ⟨e, he, hlast⟩
    cases ps with
    | nil =>
      obtain ⟨e, he, hlast⟩ := hclose (by simpa using hany)
      exact ⟨[], e, he, forall_mem_nil _, hlast⟩
    | cons q ps =>
      rw [insParts, insField]
      cases hp : node.sets p with
      | false =>
        rw [any_cons, hp, Bool.false_or] at hany
        exact ih hany
      | true =>
        rw [if_pos rfl]
        cases hlater : (q :: ps).any node.sets with
        | true =>
          obtain ⟨e, he, -, hopen⟩ := entryOf_eq (hentry p hp) .notEntryEnd
          obtain ⟨init, last, heq, hinit, hlast⟩ := ih hlater
          refine ⟨e :: init, last, ?_, forall_mem_cons.mpr ⟨hopen, hinit⟩, hlast⟩
          rw [if_pos rfl, he, heq]
          rfl
        | false =>
          obtain ⟨e, he, hlast⟩ := hclose hp
          exact ⟨[], e, he, forall_mem_nil _, hlast⟩

/-- The parts that get an entry: a rule without a part gets the one of the destination port. -/
def AclPlcyNode.inserted (node : AclPlcyNode) : List AclPart :=
  (if node.parts = [] then [.dport] else node.parts).filter node.hasEntry

theorem AclPart.mem_inOrder (p : AclPart) : p ∈ AclPart.inOrder := by
  cases p <;> decide

theorem mem_parts {p : AclPart} : p ∈ node.parts ↔ node.sets p :=
  mem_filter.trans (and_iff_right p.mem_inOrder)

/-- **What the branches insert**, for every rule. -/
theorem what_aclInsSmacETypTOSSipSpDipDp (node : AclPlcyNode) :
    (aclInsSmacETypTOSSipSpDipDp node).map (fun e => e.what) =
      node.inserted.map node.matchOf := by
  rw [aclInsSmacETypTOSSipSpDipDp_eq, AclPlcyNode.inserted]
  by_cases hnil : node.parts = []
  · have hnone : ∀ p, node.sets p = false := fun p => by
      simpa using filter_eq_nil_iff.mp hnil p p.mem_inOrder
    have hdport : insParts node AclPart.inOrder = entryOf node .dport (entryEndFp node) := by
      simp [AclPart.inOrder, insParts, insField, hnone]
    rw [if_pos hnil, hdport, what_entryOf]
  · obtain ⟨p, hp⟩ := exists_mem_of_ne_nil _ hnil
    have hany : AclPart.inOrder.any node.sets :=
      any_eq_true.mpr ⟨p, p.mem_inOrder, mem_parts.mp hp⟩
    rw [if_neg hnil, what_insParts hany, AclPlcyNode.parts]

/-! ## When the entries are a chain -/

/-- A rule comes out as a chain: it has a part, and its protocol is known if it has a port. -/
structure ChainOk (node : AclPlcyNode) : Prop where
  has_part : ∃ p, node.sets p
  ports : node.strayProto → node.spS = 0 ∧ node.dpS = 0

theorem hasEntry_iff (node : AclPlcyNode) :
    (∀ p, node.sets p → node.hasEntry p) ↔ (node.strayProto → node.spS = 0 ∧ node.dpS = 0) := by
  constructor
  · intro h hstray
    have hsport := h .sport
    have hdport := h .dport
    simp only [AclPlcyNode.sets, AclPlcyNode.hasEntry, AclPart.isPort, hstray] at hsport hdport
    exact ⟨by simpa using hsport, by simpa using hdport⟩
  · intro h p hp
    cases hstray : node.strayProto with
    | false => simp [AclPlcyNode.hasEntry, hstray]
    | true =>
      obtain ⟨hsp, hdp⟩ := h hstray
      cases p with
      | smac | dmac | others | tos | sip | dip | prot => rfl
      | sport => simp [AclPlcyNode.sets, hsp] at hp
      | dport => simp [AclPlcyNode.sets, hdp] at hp

theorem isChain_iff (node : AclPlcyNode) :
    IsChain node (aclInsSmacETypTOSSipSpDipDp node) ↔ ChainOk node := by
  constructor
  · intro h
    have heq : node.inserted = node.parts := by
      have hmap := (what_aclInsSmacETypTOSSipSpDipDp node).symm.trans h.matches_eq
      apply map_injective_iff.mpr _ hmap
      intro p q hpq
      simpa using congrArg EntryMatch.part hpq
    have hpart : node.parts ≠ [] := by
      intro hnil
      -- there is no part, and yet a last entry
      obtain ⟨init, last, hes, -, -⟩ := h.closed
      have hempty := h.matches_eq
      rw [hnil, hes] at hempty
      simp at hempty
    obtain ⟨p, hp⟩ := exists_mem_of_ne_nil _ hpart
    refine ⟨⟨p, mem_parts.mp hp⟩, (hasEntry_iff node).mp fun q hq => ?_⟩
    rw [← mem_parts, ← heq] at hq
    exact (mem_filter.mp hq).2
  · intro h
    obtain ⟨p, hp⟩ := h.has_part
    have hany : AclPart.inOrder.any node.sets := any_eq_true.mpr ⟨p, p.mem_inOrder, hp⟩
    have hentry := (hasEntry_iff node).mpr h.ports
    rw [aclInsSmacETypTOSSipSpDipDp_eq]
    refine ⟨?_, closed_insParts hany hentry⟩
    rw [what_insParts hany, filter_eq_self.mpr]
    · rfl
    · exact fun q hq => hentry q (mem_filter.mp hq).2

/-! ## The slots of the entries -/

variable {ω : Type}

/-- The entries are in the slots from the pointer on, and the pointer is behind them. -/
structure Written (s s' : AclTbl ω) (es : List PolicyEntry) : Prop where
  slots : ∀ i (h : i < es.length), s'.table (s.aclEnd + BitVec.ofNat 9 i).toNat = .acl es[i]
  next : s'.aclEnd = s.aclEnd + BitVec.ofNat 9 es.length

theorem length_insParts_le (node : AclPlcyNode) (ps : List AclPart) :
    (insParts node ps).length ≤ ps.length := by
  have hentry : ∀ p last, (entryOf node p last).length ≤ 1 := fun p last => by
    have h := congrArg List.length (what_entryOf node p last)
    rw [length_map, length_map] at h
    rw [h]
    exact length_filter_le _ _
  induction ps with
  | nil => exact Nat.le_refl 0
  | cons p ps ih =>
    cases ps with
    | nil => exact hentry p _
    | cons q ps =>
      rw [insParts, insField]
      rw [length_cons]
      split
      · split
        · rw [length_append, Nat.add_comm]
          exact Nat.add_le_add ih (hentry p _)
        · exact (hentry p _).trans (Nat.le_add_left 1 _)
      · exact ih.trans (Nat.le_succ _)

theorem written_inserts (s : AclTbl ω) {es : List PolicyEntry} (hlen : es.length ≤ 512) :
    Written s (es.foldl ppeInsAclEntry s) es where
  slots := by
    intro i hi
    have hat := putAll_at (es.map Slot.acl) s.table s.aclEnd (by simpa using hlen)
      (k := i) (by simpa using hi)
    rw [(inserts_eq es s).1, hat, getElem_map]
  next := (inserts_eq es s).2

/-- The branches write a chain for the specified parts of a rule into consecutive slots. -/
structure WritesChain (s : AclTbl ω) (node : AclPlcyNode) : Prop where
  written : Written s ((aclInsSmacETypTOSSipSpDipDp node).foldl ppeInsAclEntry s)
    (aclInsSmacETypTOSSipSpDipDp node)
  chain : IsChain node (aclInsSmacETypTOSSipSpDipDp node)

/-- **The entries of a rule are a chain in consecutive slots** if and only if the rule has a part
    and its ports, if it has any, have a known protocol. -/
theorem acl_chain_iff (s : AclTbl ω) (node : AclPlcyNode) : WritesChain s node ↔ ChainOk node := by
  rw [← isChain_iff]
  constructor
  · exact WritesChain.chain
  · intro hchain
    refine ⟨written_inserts s ?_, hchain⟩
    -- there are nine branches
    rw [aclInsSmacETypTOSSipSpDipDp_eq]
    exact (length_insParts_le node _).trans (by decide)

/-- A rule that allows, without a part. -/
def bareRule : AclPlcyNode :=
  ⟨.allow, .tcp, .smacDmacEtypeVidSipDipTosPort, 0, 0, 0, 0, 0, 0, 0, 0, 0, 0, 0, 0, 0, 0, 0, 0, 7⟩

/-- The branch for the destination port makes no test: a rule without a part gets an entry for the
    port 0. -/
theorem bare_rule_has_entry : ¬ WritesChain (AclTbl.init fun _ => ()) bareRule := by
  intro h
  have hlength := congrArg List.length h.chain.matches_eq
  revert hlength
  decide

end RalinkSdk.HwNat
