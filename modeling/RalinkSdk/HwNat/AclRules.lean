import RalinkSdk.HwNat.AclInv
import RalinkSdk.Lib.Removal

/-!
# Adding and deleting rules of the ACL

`AclAddNode` does nothing, successfully, if the list has the rule, and `AclDelNode` deletes the
first one that is the rule.  Both decide by fields that depend on the kind of the rule that they
are given, and leave others out: the kind and the method of the rule in the list always, for some
kinds the end of a range, the protocol or the fields that the kind is not about.
-/

namespace RalinkSdk.HwNat

open Lib List

variable {ω : Type}

/-- Two rules are of one kind, do the same and match the same packets. -/
structure SameRule (a b : AclPlcyNode) : Prop where
  ruleType : a.ruleType = b.ruleType
  method : a.method = b.method
  proto : a.proto = b.proto
  mac : a.mac = b.mac
  dmac : a.dmac = b.dmac
  ethertype : a.ethertype = b.ethertype
  protocol : a.protocol = b.protocol
  sip : a.sipS = b.sipS ∧ a.sipE = b.sipE
  dip : a.dipS = b.dipS ∧ a.dipE = b.dipE
  sp : a.spS = b.spS ∧ a.spE = b.spE
  dp : a.dpS = b.dpS ∧ a.dpE = b.dpE
  tos : a.tosS = b.tosS ∧ a.tosE = b.tosE
  vid : a.vid = b.vid
  pn : a.pn = b.pn

theorem SameRule.refl (node : AclPlcyNode) : SameRule node node :=
  ⟨rfl, rfl, rfl, rfl, rfl, rfl, rfl, ⟨rfl, rfl⟩, ⟨rfl, rfl⟩, ⟨rfl, rfl⟩, ⟨rfl, rfl⟩, ⟨rfl, rfl⟩,
    rfl, rfl⟩

/-! ## Adding -/

/-- The rule is in the list once `AclAddNode` says that it has succeeded. -/
def AddInstalls (new : AclPlcyNode) (s : AclTbl ω) : Prop :=
  ∀ kmalloc, (aclAddNode new kmalloc s).1 = .success →
    ∃ node ∈ (aclAddNode new kmalloc s).2.list, SameRule node new

theorem aclAddNode_cases (new : AclPlcyNode) (kmalloc : Bool) (s : AclTbl ω) :
    ((∃ node ∈ s.list, new.exists node = true) ∧ aclAddNode new kmalloc s = (.success, s)) ∨
    ((∀ node ∈ s.list, new.exists node = false) ∧ kmalloc = false ∧
      aclAddNode new kmalloc s = (.fail, s)) ∨
    ((∀ node ∈ s.list, new.exists node = false) ∧ kmalloc = true ∧
      (aclAddNode new kmalloc s).1 = .success ∧
      (aclAddNode new kmalloc s).2.list = s.list ++ [new]) := by
  unfold aclAddNode aclExistNode
  cases hfind : s.list.find? new.exists with
  | some node => exact .inl ⟨⟨node, List.mem_of_find?_eq_some hfind, List.find?_some hfind⟩, rfl⟩
  | none =>
    have hnone : ∀ node ∈ s.list, new.exists node = false := fun node hmem =>
      Bool.not_eq_true _ ▸ List.find?_eq_none.mp hfind node hmem
    cases kmalloc with
    | false => exact .inr (.inl ⟨hnone, rfl, rfl⟩)
    | true => exact .inr (.inr ⟨hnone, rfl, rfl, list_syncAclTbl _⟩)

theorem addInstalls_iff (new : AclPlcyNode) (s : AclTbl ω) : AddInstalls new s ↔
      ((∃ node ∈ s.list, new.exists node = true) → ∃ node ∈ s.list, SameRule node new) := by
  constructor
  · intro h hexists
    obtain ⟨-, heq⟩ | ⟨hnone, -⟩ | ⟨hnone, -⟩ := aclAddNode_cases new true s
    · have hadded := h true
      rw [heq] at hadded
      exact hadded rfl
    all_goals
      obtain ⟨node, hmem, hnode⟩ := hexists
      rw [hnone node hmem] at hnode
      cases hnode
  · intro h kmalloc hsuccess
    obtain ⟨hexists, heq⟩ | ⟨-, -, heq⟩ | ⟨-, -, -, hlist⟩ := aclAddNode_cases new kmalloc s
    · rw [heq]
      exact h hexists
    · rw [heq] at hsuccess
      cases hsuccess
    · rw [hlist]
      exact ⟨new, mem_append_right _ (mem_singleton_self new), SameRule.refl new⟩

/-! ## Deleting -/

/-- `AclDelNode` takes out the rule, if anything, and leaves the others. -/
def DelRemoves (del : AclPlcyNode) (s : AclTbl ω) : Prop :=
  RemovesOnly (SameRule · del) s.list (aclDelNode del s).2.list

theorem list_aclDelNode (del : AclPlcyNode) (s : AclTbl ω) :
    (aclDelNode del s).2.list = s.list.eraseP del.deletes := by
  unfold aclDelNode
  cases hfind : s.list.find? del.deletes with
  | none => exact (eraseP_of_forall_not (by simpa using hfind)).symm
  | some node => exact list_syncAclTbl _

theorem delRemoves_iff (del : AclPlcyNode) (s : AclTbl ω) :
    DelRemoves del s ↔ ∀ node, s.list.find? del.deletes = some node → SameRule node del := by
  rw [DelRemoves, list_aclDelNode]
  exact removesOnly_eraseP_iff (SameRule · del) del.deletes s.list

/-! ## Both -/

/-- **Adding and deleting deal with the rule that they are given** if and only if what they take
    for the rule is the rule: whenever the list has a rule that `AclExistNode` takes for the new
    one, it has the new one, and the first rule that `AclDelNode` takes for the one to delete is
    that one. -/
theorem acl_add_del_iff (rule : AclPlcyNode) (s : AclTbl ω) : (AddInstalls rule s ↔
      ((∃ node ∈ s.list, rule.exists node = true) → ∃ node ∈ s.list, SameRule node rule)) ∧
    (DelRemoves rule s ↔
      ∀ node, s.list.find? rule.deletes = some node → SameRule node rule) :=
  ⟨addInstalls_iff rule s, delRemoves_iff rule s⟩

/-- A list with one rule, which denies what `allowAddress` allows. -/
def deniedTbl : AclTbl Unit :=
  { AclTbl.init (fun _ => ()) with list := [{ allowAddress 1 with method := .deny }] }

/-- A rule that allows an address is taken for the one that denies it: it is not added, and
    deleting it takes out the other one. -/
theorem allow_taken_for_deny :
    ¬ AddInstalls (allowAddress 1) deniedTbl ∧ ¬ DelRemoves (allowAddress 1) deniedTbl := by
  have hdiffer : ¬ SameRule { allowAddress 1 with method := .deny } (allowAddress 1) := by
    intro h
    exact absurd h.method (by decide)
  constructor
  · intro h
    obtain ⟨node, hmem, hsame⟩ := h true rfl
    have hlist : (aclAddNode (allowAddress 1) true deniedTbl).2.list = deniedTbl.list := rfl
    rw [hlist, deniedTbl, List.mem_singleton] at hmem
    exact hdiffer (hmem ▸ hsame)
  · intro h
    have hempty : (aclDelNode (allowAddress 1) deniedTbl).2.list = [] := rfl
    obtain hsame | ⟨before, node, after, hlist, -, hsame⟩ := h
    · rw [hempty] at hsame
      cases hsame
    · have hmem : node ∈ deniedTbl.list := hlist ▸ List.mem_append_right _ List.mem_cons_self
      rw [deniedTbl, List.mem_singleton] at hmem
      exact hdiffer (hmem ▸ hsame)

end RalinkSdk.HwNat
