import RalinkSdk.HwNat.PolicyInv
import RalinkSdk.Lib.Removal

/-!
# Deleting a rule that was added

`AcExistNode` and `MtrExistNode` compare the type of a rule, that is its direction, along with an
address; `AcDelNode` and `MtrDelNode` do not, and none of the four compares the kind of a rule that
an address is for.  So deleting the rule that was just added may delete another one, that had the
address before.
-/

namespace RalinkSdk.HwNat

open Lib List Option

/-! ## Giving back the group that was taken -/

theorem freeList_ext {l l' : FreeList} (h : ∀ k, k < 64 → used l k = used l' k) : l = l' := by
  funext i
  apply BitVec.eq_of_getLsbD_eq
  intro j hj
  have hi := i.isLt
  have hbit := h (i.val * 8 + j) (by omega)
  rwa [used_eq hj, used_eq hj] at hbit

/-- There is a free group. -/
def HasFree (l : FreeList) : Prop := ∃ k, k < 64 ∧ used l k = false

theorem ppeSetFreeGrp_ppeGetFreeGrp {l : FreeList} {idx : BitVec 32}
    (hgroup : ∀ k, k < 64 → (ppeGetFreeGrp l).1 = (k : Nat) → idx.toNat = k)
    (hfail : (ppeGetFreeGrp l).1 = -1 → 64 ≤ idx.toNat) :
    ppeSetFreeGrp idx (ppeGetFreeGrp l).2 = some l ↔ HasFree l := by
  obtain ⟨k, hk, hfree, hget, hused⟩ | ⟨hfull, hget⟩ := ppeGetFreeGrp_spec l
  · refine iff_of_true ?_ ⟨k, hk, hfree⟩
    have hidx := hgroup k hk hget
    obtain ⟨l', hset, hback⟩ := used_ppeSetFreeGrp (hidx ▸ hk) (ppeGetFreeGrp l).2
    rw [hset]
    congr 1
    apply freeList_ext
    intro m hm
    rw [Bool.eq_iff_iff, hback m hm, hused m hm, hidx]
    constructor
    · rintro ⟨hne, heq | hm'⟩
      · exact absurd heq hne
      · exact hm'
    · intro hm'
      refine ⟨?_, .inr hm'⟩
      rintro rfl
      rw [hfree] at hm'
      cases hm'
  · have hout : ¬ idx.toNat / 8 < 8 := by
      have hlarge := hfail (by rw [hget])
      omega
    refine iff_of_false ?_ ?_
    · rw [ppeSetFreeGrp, dif_neg hout]
      exact fun h => by cases h
    · rintro ⟨k, hk, hfree⟩
      rw [hfull k hk] at hfree
      cases hfree

/-! ## Deleting, for both tables -/

variable {ν : Type}

/-- `AcDelNode` and `MtrDelNode`, as the comparison and the group of a rule. -/
def plcyDelNode (same : ν → Bool) (group : ν → BitVec 32) (t : PlcyTbl ν) :
    Option (Result × PlcyTbl ν) :=
  match t.list.find? same with
  | none => some (.fail, t)
  | some node => do
    let freeList ← ppeSetFreeGrp (group node) t.freeList
    some (.success, ⟨t.list.eraseP same, freeList⟩)

theorem acDelNode_eq (del : AcPlcyNode) (t : PlcyTbl AcPlcyNode) :
    acDelNode del t = plcyDelNode del.sameRule (fun node => node.agIdx.setWidth 32) t := by
  unfold acDelNode plcyDelNode
  cases t.list.find? del.sameRule <;> rfl

theorem mtrDelNode_eq (del : MtrPlcyNode) (t : PlcyTbl MtrPlcyNode) :
    mtrDelNode del t = plcyDelNode del.sameRule (fun node => node.mgNum) t := by
  unfold mtrDelNode plcyDelNode
  cases t.list.find? del.sameRule <;> rfl

/-- Deleting a rule is defined, and takes out nothing but what is meant. -/
def Deletes (P : ν → Prop) (t : PlcyTbl ν) (out : Option (Result × PlcyTbl ν)) : Prop :=
  ∃ result t', out = some (result, t') ∧ RemovesOnly P t.list t'.list

theorem deletes_iff (P : ν → Prop) (same : ν → Bool) (group : ν → BitVec 32) (t : PlcyTbl ν) :
    Deletes P t (plcyDelNode same group t) ↔
      ∀ node, t.list.find? same = some node → P node ∧ (group node).toNat < 64 := by
  unfold Deletes plcyDelNode
  cases hfind : t.list.find? same with
  | none => exact iff_of_true ⟨_, _, rfl, .inl rfl⟩ fun node h => by cases h
  | some node =>
    have hdiv : (group node).toNat / 8 < 8 ↔ (group node).toNat < 64 :=
      Nat.div_lt_iff_lt_mul (by decide)
    by_cases hgroup : (group node).toNat < 64
    · obtain ⟨l', hset⟩ : ∃ l', ppeSetFreeGrp (group node) t.freeList = some l' :=
        ⟨_, dif_pos (hdiv.mpr hgroup)⟩
      have honly := removesOnly_eraseP_iff P same t.list
      rw [hfind] at honly
      simp only [hset, bind_eq_bind, bind_some, Option.some.injEq]
      constructor
      · rintro ⟨result, t', heq, hremoves⟩ x rfl
        cases heq
        exact ⟨honly.mp hremoves _ rfl, hgroup⟩
      · intro h
        exact ⟨_, _, rfl, honly.mpr fun x hx => (h x (by simpa using hx)).1⟩
    · have hset : ppeSetFreeGrp (group node) t.freeList = none :=
        dif_neg (mt hdiv.mp hgroup)
      refine iff_of_false ?_ fun h => hgroup (h node rfl).2
      rintro ⟨result, t', heq, -⟩
      simp [hset] at heq

theorem plcyDelNode_append_iff {same : ν → Bool} {group : ν → BitVec 32} {t : PlcyTbl ν} {x : ν}
    {freeList : FreeList} (hx : same x = true) (hnew : x ∉ t.list) :
    plcyDelNode same group ⟨t.list ++ [x], freeList⟩ = some (.success, t) ↔
      (∀ node ∈ t.list, same node = false) ∧ ppeSetFreeGrp (group x) freeList = some t.freeList := by
  have herase := eraseP_append_eq_iff hx hnew
  have hfound : ∀ y, (t.list ++ [x]).find? same = some y →
      (plcyDelNode same group ⟨t.list ++ [x], freeList⟩ = some (.success, t) ↔
        ppeSetFreeGrp (group y) freeList = some t.freeList ∧ (t.list ++ [x]).eraseP same = t.list) :=
    fun y hy => by
      unfold plcyDelNode
      simp only [hy]
      cases ppeSetFreeGrp (group y) freeList with
      | none => simp
      | some l =>
        obtain ⟨list, bits⟩ := t
        simp [and_comm]
  constructor
  · intro h
    obtain ⟨y, hy⟩ : ∃ y, (t.list ++ [x]).find? same = some y := by
      rw [← isSome_iff_exists, find?_isSome]
      exact ⟨x, mem_append_right _ (mem_singleton_self x), hx⟩
    obtain ⟨hset, heq⟩ := (hfound y hy).mp h
    have hnone := herase.mp heq
    -- so that it is the new rule that is found
    have hyx : (t.list ++ [x]).find? same = some x := by
      rw [find?_append, find?_eq_none.mpr (by simpa using hnone)]
      simp [hx]
    rw [hyx] at hy
    cases hy
    exact ⟨hnone, hset⟩
  · rintro ⟨hnone, hset⟩
    have hyx : (t.list ++ [x]).find? same = some x := by
      rw [find?_append, find?_eq_none.mpr (by simpa using hnone)]
      simp [hx]
    exact (hfound x hyx).mpr ⟨hset, herase.mpr hnone⟩

/-! ## The accounting table -/

/-- Two accounting rules have the same type and the same key, of the same kind. -/
def AcSameKey (del node : AcPlcyNode) : Prop :=
  node.type = del.type ∧ node.ruleType = del.ruleType ∧ del.sameRule node = true

/-- Deleting a rule right after it was added restores the table. -/
def AcRestores (new : AcPlcyNode) (t : PlcyTbl AcPlcyNode) : Prop :=
  acDelNode new (acAddNode new true t).2 = some (.success, t)

theorem acRestores_iff {new : AcPlcyNode} {t : PlcyTbl AcPlcyNode} (h : acExistNode new t = none) :
    AcRestores new t ↔ (∀ node ∈ t.list, new.sameRule node = false) ∧ HasFree t.freeList := by
  have hadd : (acAddNode new true t).2 =
      ⟨t.list ++ [{ new with agIdx := BitVec.ofInt 8 (ppeGetFreeGrp t.freeList).1 }],
        (ppeGetFreeGrp t.freeList).2⟩ := by
    simp [acAddNode, h]
  have hsame : ∀ agIdx, new.sameRule { new with agIdx } = true := fun agIdx => by
    unfold AcPlcyNode.sameRule
    cases new.ruleType <;> simp
  have hnew : { new with agIdx := BitVec.ofInt 8 (ppeGetFreeGrp t.freeList).1 } ∉ t.list := by
    intro hmem
    -- the new rule would have been found
    have hnot := find?_eq_none.mp h _ hmem
    simp [hsame] at hnot
  rw [AcRestores, hadd, acDelNode_eq, plcyDelNode_append_iff (hsame _) hnew]
  refine and_congr_right fun _ => ppeSetFreeGrp_ppeGetFreeGrp ?_ ?_
  · intro k hk hget
    have hcut : k % 256 = k := Nat.mod_eq_of_lt (Nat.lt_trans hk (by decide))
    simp [hget, hcut]
    omega
  · intro hget
    simp [hget]

/-! ## The meter table -/

/-- Two meter rules have the same type and the same key, of the same kind. -/
def MtrSameKey (del node : MtrPlcyNode) : Prop :=
  node.type = del.type ∧ node.ruleType = del.ruleType ∧ del.sameRule node = true

/-- Deleting a rule right after it was added restores the table. -/
def MtrRestores (new : MtrPlcyNode) (t : PlcyTbl MtrPlcyNode) : Prop :=
  mtrDelNode new (mtrAddNode new true t).2 = some (.success, t)

theorem exists_of_sameRule {new node : MtrPlcyNode} (hsame : new.sameRule node = true)
    (htype : node.type = new.type) : new.exists node = true := by
  unfold MtrPlcyNode.exists
  split
  · simp [hsame, htype]
  · simp [hsame, htype]
  · exact hsame

theorem mtrRestores_iff {new : MtrPlcyNode} {t : PlcyTbl MtrPlcyNode}
    (h : ∀ node ∈ t.list, new.exists node = false) :
    MtrRestores new t ↔ (∀ node ∈ t.list, new.sameRule node = false) ∧ HasFree t.freeList := by
  have hadd : (mtrAddNode new true t).2 =
      ⟨t.list ++ [{ new with mgNum := BitVec.ofInt 32 (ppeGetFreeGrp t.freeList).1 }],
        (ppeGetFreeGrp t.freeList).2⟩ := by
    simp [mtrAddNode, findIdx?_eq_none_iff.mpr h]
  have hsame : ∀ mgNum, new.sameRule { new with mgNum } = true := fun mgNum => by
    unfold MtrPlcyNode.sameRule
    cases new.ruleType <;> simp
  have hexists : ∀ mgNum, new.exists { new with mgNum } = true := fun mgNum =>
    exists_of_sameRule (hsame mgNum) rfl
  have hnew : { new with mgNum := BitVec.ofInt 32 (ppeGetFreeGrp t.freeList).1 } ∉ t.list := by
    intro hmem
    have hnot := h _ hmem
    rw [hexists] at hnot
    cases hnot
  rw [MtrRestores, hadd, mtrDelNode_eq, plcyDelNode_append_iff (hsame _) hnew]
  refine and_congr_right fun _ => ppeSetFreeGrp_ppeGetFreeGrp ?_ ?_
  · intro k hk hget
    simp [hget]
    omega
  · intro hget
    simp [hget]

/-! ## Both tables -/

/-- **Adding and deleting**, for the accounting and the meter table.  A rule that is not there yet
    is taken out again, and nothing else is changed, if and only if no rule of either direction has
    its address and a group is free.  Deleting takes out nothing but a rule of the type and the
    key if and only if the first rule that compares equal is one, and has a group. -/
theorem ac_mtr_add_del_iff (acTbl : PlcyTbl AcPlcyNode) (acNode : AcPlcyNode)
    (mtrTbl : PlcyTbl MtrPlcyNode) (mtrNode : MtrPlcyNode) : (acExistNode acNode acTbl = none →
      (AcRestores acNode acTbl ↔
        (∀ node ∈ acTbl.list, acNode.sameRule node = false) ∧ HasFree acTbl.freeList)) ∧
    (Deletes (AcSameKey acNode) acTbl (acDelNode acNode acTbl) ↔
      ∀ node, acTbl.list.find? acNode.sameRule = some node →
        AcSameKey acNode node ∧ node.group < 64) ∧
    ((∀ node ∈ mtrTbl.list, mtrNode.exists node = false) →
      (MtrRestores mtrNode mtrTbl ↔
        (∀ node ∈ mtrTbl.list, mtrNode.sameRule node = false) ∧ HasFree mtrTbl.freeList)) ∧
    (Deletes (MtrSameKey mtrNode) mtrTbl (mtrDelNode mtrNode mtrTbl) ↔
      ∀ node, mtrTbl.list.find? mtrNode.sameRule = some node →
        MtrSameKey mtrNode node ∧ node.group < 64) := by
  refine ⟨acRestores_iff, ?_, mtrRestores_iff, ?_⟩
  · rw [acDelNode_eq, deletes_iff]
    have hgroup : ∀ node : AcPlcyNode, (node.agIdx.setWidth 32).toNat = node.group := fun node => by
      rw [BitVec.toNat_setWidth_of_le (by decide)]
      rfl
    simp only [hgroup]
  · rw [mtrDelNode_eq, deletes_iff]
    rfl

/-- A meter rule for packets from an address. -/
def mtrMacRule : MtrPlcyNode := ⟨.preMtr, .macGroup, 1, 0, 0, 0, 0⟩

/-- The first rule of each table is taken out again. -/
theorem ac_mtr_add_del_first : AcRestores acMacRule .init ∧ MtrRestores mtrMacRule .init := by
  have h := ac_mtr_add_del_iff .init acMacRule .init mtrMacRule
  constructor
  · exact (h.1 rfl).mpr ⟨List.forall_mem_nil _, 0, by decide, by decide⟩
  · exact (h.2.2.1 (List.forall_mem_nil _)).mpr ⟨List.forall_mem_nil _, 0, by decide, by decide⟩

/-- An accounting rule for packets to the address of `acMacRule`, which counts packets from it. -/
def acDownRule : AcPlcyNode := { acMacRule with type := .postAc }

/-- A table that counts the packets to an address. -/
def acDownTbl : PlcyTbl AcPlcyNode := (acAddNode acDownRule true .init).2

/-- Deleting the rule for packets from an address, which was just added, deletes the one for
    packets to it. -/
theorem delete_takes_other_direction :
    acExistNode acMacRule acDownTbl = none ∧ ¬ AcRestores acMacRule acDownTbl := by
  constructor
  · rfl
  · intro h
    have hlist : (acDelNode acMacRule (acAddNode acMacRule true acDownTbl).2).map
        (fun out => out.2.list.map fun node => node.type) = some [.preAc] := rfl
    rw [h] at hlist
    exact absurd hlist (by decide)

end RalinkSdk.HwNat
