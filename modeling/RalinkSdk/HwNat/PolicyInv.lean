import RalinkSdk.HwNat.Policy
import RalinkSdk.Lib.IndexPool

/-!
# Group indices over whole runs

The rules of a table carry distinct groups below 64, and the bits say which, as long as no rule
is added without a free group and only an empty table is cleaned: `AcAddNode` and `MtrAddNode`
put the -1 of a failed allocation into the new rule, and `AcCleanTbl` and `MtrCleanTbl` leave the
bits as they are.
-/

namespace RalinkSdk.HwNat

open Lib List BitVec Function Nat Option

/-! ## Bits -/

/-- The bit of a group is set. -/
def used (l : FreeList) (k : Nat) : Bool :=
  if h : k / 8 < 8 then (l ⟨k / 8, h⟩).getLsbD (k % 8) else false

theorem used_eq {l : FreeList} {i : Fin 8} {j : Nat} (hj : j < 8) :
    used l (i.val * 8 + j) = (l i).getLsbD j := by
  have hdiv : (i.val * 8 + j) / 8 = i.val := by omega
  have hmod : (i.val * 8 + j) % 8 = j := by omega
  simp [used, hdiv, hmod]

theorem exists_byte {k : Nat} (hk : k < 64) : ∃ (i : Fin 8) (j : Nat), j < 8 ∧ k = i.val * 8 + j :=
  ⟨⟨k / 8, by omega⟩, k % 8, by omega, by simp; omega⟩

theorem and_bit_eq_zero {byte : BitVec 8} {j : Nat} (hj : j < 8) :
    byte &&& (1#8 <<< j) = 0 ↔ byte.getLsbD j = false := by
  rw [← twoPow_eq, and_twoPow]
  have hpow : BitVec.twoPow 8 j ≠ 0 := by
    intro h
    have hbit := congrArg (fun x => x.getLsbD j) h
    simp [hj] at hbit
  cases hbit : byte.getLsbD j with
  | false => simp
  | true => simpa using hpow

theorem findFree_some {l : FreeList} {i : Fin 8} {j : Nat} (h : findFree l = some (i, j)) :
    j < 8 ∧ used l (i.val * 8 + j) = false := by
  obtain ⟨i', -, hbit⟩ := exists_of_findSome?_eq_some h
  obtain ⟨j', hfind, heq⟩ := map_eq_some_iff.mp hbit
  obtain ⟨rfl, rfl⟩ := Prod.mk.inj heq
  have hj : j' < 8 := mem_range.mp (mem_of_find?_eq_some hfind)
  have hzero := find?_some hfind
  refine ⟨hj, ?_⟩
  rw [used_eq hj]
  exact (and_bit_eq_zero hj).mp (by simpa using hzero)

theorem findFree_none {l : FreeList} (h : findFree l = none) {k : Nat} (hk : k < 64) :
    used l k = true := by
  obtain ⟨i, j, hj, rfl⟩ := exists_byte hk
  have hbyte := findSome?_eq_none_iff.mp h i (mem_finRange i)
  have hbit := find?_eq_none.mp (map_eq_none_iff.mp hbyte) j (mem_range.mpr hj)
  have hne : ¬ (l i).getLsbD j = false := fun hfalse =>
    hbit (by simpa using (and_bit_eq_zero hj).mpr hfalse)
  rw [used_eq hj]
  simpa using hne

theorem used_update (l : FreeList) (i : Fin 8) {j : Nat} (hj : j < 8) (byte : BitVec 8) {b : Bool}
    (hbyte : ∀ j', j' < 8 → byte.getLsbD j' = if j' = j then b else (l i).getLsbD j') {k : Nat}
    (hk : k < 64) :
    used (update l i byte) k = if k = i.val * 8 + j then b else used l k := by
  obtain ⟨i', j', hj', rfl⟩ := exists_byte hk
  rw [used_eq hj', used_eq hj']
  by_cases hi : i' = i
  · subst hi
    rw [update_self, hbyte j' hj']
    have hiff : j' = j ↔ i'.val * 8 + j' = i'.val * 8 + j := by omega
    simp only [hiff]
  · have hval : i'.val ≠ i.val := fun h => hi (Fin.ext h)
    rw [update_of_ne hi, if_neg (by omega)]

/-- **Taking a group**: the first free one, or -1 if all are taken. -/
theorem ppeGetFreeGrp_spec (l : FreeList) :
    (∃ k, k < 64 ∧ used l k = false ∧ (ppeGetFreeGrp l).1 = k ∧
      ∀ m, m < 64 → (used (ppeGetFreeGrp l).2 m = true ↔ m = k ∨ used l m = true)) ∨
    ((∀ k, k < 64 → used l k = true) ∧ ppeGetFreeGrp l = (-1, l)) := by
  cases hfind : findFree l with
  | none => exact .inr ⟨fun k hk => findFree_none hfind hk, by simp [ppeGetFreeGrp, hfind]⟩
  | some found =>
    obtain ⟨i, j⟩ := found
    obtain ⟨hj, hfree⟩ := findFree_some hfind
    have hi := i.isLt
    left
    refine ⟨i.val * 8 + j, by omega, hfree, by simp [ppeGetFreeGrp, hfind], ?_⟩
    intro m hm
    have hset := used_update l i hj (l i ||| 1#8 <<< j) (b := true)
      (fun j' hj' => by
        rw [getLsbD_or, ← twoPow_eq, getLsbD_twoPow]
        by_cases heq : j' = j
        · simp [heq, hj]
        · simp [heq, Ne.symm heq])
      hm
    simp only [ppeGetFreeGrp, hfind, hset]
    split
    · next heq => simp [heq]
    · next hne => simp [hne]

/-- **Giving a group back.** -/
theorem used_ppeSetFreeGrp {idx : BitVec 32} (hidx : idx.toNat < 64) (l : FreeList) :
    ∃ l', ppeSetFreeGrp idx l = some l' ∧
      ∀ m, m < 64 → (used l' m = true ↔ m ≠ idx.toNat ∧ used l m = true) := by
  have hbyte : idx.toNat / 8 < 8 := by omega
  refine ⟨_, dif_pos hbyte, ?_⟩
  intro m hm
  have hj : idx.toNat % 8 < 8 := mod_lt _ (by decide)
  have hclear := used_update l ⟨idx.toNat / 8, hbyte⟩ hj
    (l ⟨idx.toNat / 8, hbyte⟩ &&& ~~~(1#8 <<< (idx.toNat % 8))) (b := false)
    (fun j' hj' => by
      rw [getLsbD_and, getLsbD_not, ← twoPow_eq, getLsbD_twoPow]
      by_cases heq : j' = idx.toNat % 8
      · simp [heq, hj]
      · simp [heq, Ne.symm heq, hj'])
    hm
  have hidx' : idx.toNat / 8 * 8 + idx.toNat % 8 = idx.toNat := by omega
  rw [hclear]
  simp only [hidx']
  split
  · next heq => simp [heq]
  · next hne => simp [hne]

/-! ## Tables -/

variable {ν : Type} {index : ν → Nat} {t : PlcyTbl ν}

/-- The rules carry distinct groups below 64, and a bit is set exactly when a rule carries its
    group. -/
def TblOk (index : ν → Nat) (t : PlcyTbl ν) : Prop :=
  IndexPool 64 index (fun k => used t.freeList k = true) t.list

/-- What is promised of an operation with its outcome: it leaves the table consistent, without a
    free group nothing is added, and after a clean every group is free. -/
structure Kept (index : ν → Nat) (isNew : ν → PlcyTbl ν → Prop) (t : PlcyTbl ν) (op : PlcyOp ν)
    (out : Option (Result × PlcyTbl ν)) : Prop where
  ok : ∃ r t', out = some (r, t') ∧ TblOk index t'
  full : ∀ new kmalloc, op = .add new kmalloc → isNew new t →
    (∀ k, k < 64 → used t.freeList k = true) → out = some (.fail, t)
  clean : op = .clean → ∀ r t', out = some (r, t') → ∀ k, k < 64 → used t'.freeList k = false

/-- A group is free when a new rule is added, and only an empty table is cleaned. -/
def InBounds (isNew : ν → PlcyTbl ν → Prop) (t : PlcyTbl ν) : PlcyOp ν → Prop
  | .add new kmalloc => isNew new t → kmalloc = true → ∃ k, k < 64 ∧ used t.freeList k = false
  | .del _ => True
  | .clean => t.list = []

theorem tblOk_init : TblOk index (PlcyTbl.init : PlcyTbl ν) := by
  apply IndexPool.nil
  intro k _
  simp [PlcyTbl.init, used]

variable {isNew : ν → PlcyTbl ν → Prop}

theorem Kept.unchanged (h : TblOk index t) {op : PlcyOp ν} {r : Result} (hop : op ≠ .clean)
    (hfail : ∀ new kmalloc, op = .add new kmalloc → isNew new t → r = .fail) :
    Kept index isNew t op (some (r, t)) where
  ok := ⟨r, t, rfl, h⟩
  full := by
    intro new kmalloc heq hnew _
    rw [hfail new kmalloc heq hnew]
  clean := fun hclean => absurd hclean hop

theorem kept_add (h : TblOk index t) {new x : ν} (hnew : isNew new t)
    (hindex : ∀ k : Nat, k < 64 → (ppeGetFreeGrp t.freeList).1 = k → index x = k)
    (hnone : (ppeGetFreeGrp t.freeList).1 = -1 → ¬ index x < 64) :
    Kept index isNew t (.add new true)
        (some (.success, ⟨t.list ++ [x], (ppeGetFreeGrp t.freeList).2⟩)) ↔
      InBounds isNew t (.add new true) := by
  rcases ppeGetFreeGrp_spec t.freeList with ⟨k, hk, hfree, hidx, hmark⟩ | ⟨hall, hget⟩
  · -- there is a free group
    have hx := hindex k hk hidx
    have hright : InBounds isNew t (.add new true) := fun _ _ => ⟨k, hk, hfree⟩
    refine iff_of_true ⟨⟨_, _, rfl, ?_⟩, ?_, ?_⟩ hright
    · apply IndexPool.append h
      · rw [hx]
        exact hk
      · simp [hx, hfree]
      · rw [hx]
        exact hmark
    · intro _ _ _ _ hfull
      exact absurd (hfull k hk) (by simp [hfree])
    · intro hclean
      cases hclean
  · -- all groups are taken
    apply iff_of_false
    · rintro ⟨⟨r, t', hout, hok⟩, -, -⟩
      obtain ⟨-, rfl⟩ := Prod.mk.inj (Option.some.inj hout)
      exact hnone (by rw [hget]) (hok.lt x (by simp))
    · intro hroom
      obtain ⟨k, hk, hfree⟩ := hroom hnew rfl
      exact absurd (hall k hk) (by simp [hfree])

theorem TblOk.del (h : TblOk index t) {p : ν → Bool} {x : ν} (hfind : t.list.find? p = some x)
    {idx : BitVec 32} (hidx : idx.toNat = index x) : ∃ l', ppeSetFreeGrp idx t.freeList = some l' ∧
      TblOk index (⟨t.list.eraseP p, l'⟩ : PlcyTbl ν) := by
  obtain ⟨hp, front, back, hsplit, hfront⟩ := find?_eq_some_iff_append.mp hfind
  have herase : t.list.eraseP p = front ++ back := by
    have hnot : ∀ y ∈ front, ¬ p y = true := fun y hy => by simpa using hfront y hy
    rw [hsplit, eraseP_append_right _ hnot, eraseP_cons_of_pos hp]
  have hlt : idx.toNat < 64 := by
    rw [hidx]
    exact h.lt x (hsplit ▸ mem_append_right _ mem_cons_self)
  obtain ⟨l', hset, hmark⟩ := used_ppeSetFreeGrp hlt t.freeList
  refine ⟨l', hset, ?_⟩
  rw [herase]
  have hpool : IndexPool 64 index (fun k => used t.freeList k = true) (front ++ x :: back) :=
    hsplit ▸ h
  apply hpool.erase
  intro m hm
  rw [← hidx]
  exact hmark m hm

theorem kept_clean (h : TblOk index t) :
    Kept index isNew t .clean (some (.success, { t with list := [] })) ↔
      InBounds isNew t .clean := by
  constructor
  · rintro ⟨-, -, hclean⟩
    have hfree := hclean rfl _ _ rfl
    apply eq_nil_iff_forall_not_mem.mpr
    intro x hx
    have hmarked := (h.marked_iff _ (h.lt x hx)).mpr ⟨x, hx, rfl⟩
    exact absurd hmarked (by simp [hfree _ (h.lt x hx)])
  · intro hempty
    have hfree : ∀ k, k < 64 → used t.freeList k = false := by
      intro k hk
      have hiff := h.marked_iff k hk
      rw [show t.list = [] from hempty] at hiff
      simpa using hiff
    have hsame : ({ t with list := [] } : PlcyTbl ν) = t := by
      rw [← show t.list = [] from hempty]
    rw [hsame]
    refine ⟨⟨_, _, rfl, h⟩, ?_, ?_⟩
    · intro _ _ hop
      cases hop
    · rintro - r t' hout k hk
      obtain ⟨-, rfl⟩ := Prod.mk.inj (Option.some.inj hout)
      exact hfree k hk

/-! ## The accounting table -/

def AcPlcyNode.group (node : AcPlcyNode) : Nat := node.agIdx.toNat

/-- The rule is not in the table. -/
def AcNew (new : AcPlcyNode) (t : PlcyTbl AcPlcyNode) : Prop := acExistNode new t = none

/-- The table after an operation. -/
def acStep (t : PlcyTbl AcPlcyNode) (op : PlcyOp AcPlcyNode) : Option (PlcyTbl AcPlcyNode) :=
  (acCall t op).map Prod.snd

variable {t : PlcyTbl AcPlcyNode}

theorem kept_acAddNode (h : TblOk AcPlcyNode.group t) (new : AcPlcyNode) (kmalloc : Bool) :
    Kept AcPlcyNode.group AcNew t (.add new kmalloc) (some (acAddNode new kmalloc t)) ↔
      InBounds AcNew t (.add new kmalloc) := by
  cases hexist : acExistNode new t with
  | some node =>
    have hold : ¬ AcNew new t := by simp [AcNew, hexist]
    simp only [acAddNode, hexist]
    refine iff_of_true (Kept.unchanged h (by simp) ?_) fun hnew => absurd hnew hold
    rintro _ _ ⟨⟩ hnew
    exact absurd hnew hold
  | none =>
    cases kmalloc with
    | false =>
      simp only [acAddNode, hexist, Bool.false_eq_true, if_false]
      exact iff_of_true (Kept.unchanged h (by simp) fun _ _ _ _ => rfl) fun _ hk => by cases hk
    | true =>
      simp only [acAddNode, hexist, if_true]
      apply kept_add h hexist
      · intro k hk heq
        have hsmall : k < 256 := by omega
        simp [AcPlcyNode.group, heq, mod_eq_of_lt hsmall]
      · intro heq
        rw [AcPlcyNode.group, heq]
        show ¬ (BitVec.ofInt 8 (-1)).toNat < 64
        decide

theorem kept_acDelNode (h : TblOk AcPlcyNode.group t) (del : AcPlcyNode) :
    Kept AcPlcyNode.group AcNew t (.del del) (acDelNode del t) := by
  unfold acDelNode
  cases hfind : t.list.find? del.sameRule with
  | none => exact Kept.unchanged h (by simp) fun _ _ hop => by cases hop
  | some node =>
    have hidx : (node.agIdx.setWidth 32).toNat = node.group := by
      have hlt := node.agIdx.isLt
      rw [toNat_setWidth, mod_eq_of_lt (by omega)]
      rfl
    obtain ⟨l', hset, hok⟩ := TblOk.del h hfind hidx
    simp only [hset]
    refine ⟨⟨_, _, rfl, hok⟩, ?_, ?_⟩
    · intro _ _ hop
      cases hop
    · intro hop
      cases hop

theorem kept_acCall (h : TblOk AcPlcyNode.group t) (op : PlcyOp AcPlcyNode) :
    Kept AcPlcyNode.group AcNew t op (acCall t op) ↔ InBounds AcNew t op := by
  cases op with
  | add new kmalloc => exact kept_acAddNode h new kmalloc
  | del node => exact iff_of_true (kept_acDelNode h node) trivial
  | clean => exact kept_clean h

/-! ## The meter table -/

def MtrPlcyNode.group (node : MtrPlcyNode) : Nat := node.mgNum.toNat

/-- The rule is not in the table. -/
def MtrNew (new : MtrPlcyNode) (t : PlcyTbl MtrPlcyNode) : Prop :=
  t.list.findIdx? new.exists = none

/-- The table after an operation. -/
def mtrStep (t : PlcyTbl MtrPlcyNode) (op : PlcyOp MtrPlcyNode) : Option (PlcyTbl MtrPlcyNode) :=
  (mtrCall t op).map Prod.snd

theorem map_group_modify (l : List MtrPlcyNode) (i : Nat) (mtrInfo : BitVec 32) :
    (l.modify i fun node => { node with mtrInfo }).map MtrPlcyNode.group =
      l.map MtrPlcyNode.group := by
  induction l generalizing i with
  | nil => simp
  | cons x l ih =>
    cases i with
    | zero => rfl
    | succ i => simp [modify_succ_cons, ih]

theorem kept_mtrAddNode {t : PlcyTbl MtrPlcyNode} (h : TblOk MtrPlcyNode.group t)
    (new : MtrPlcyNode) (kmalloc : Bool) :
    Kept MtrPlcyNode.group MtrNew t (.add new kmalloc) (some (mtrAddNode new kmalloc t)) ↔
      InBounds MtrNew t (.add new kmalloc) := by
  cases hexist : t.list.findIdx? new.exists with
  | some i =>
    have hold : ¬ MtrNew new t := by simp [MtrNew, hexist]
    simp only [mtrAddNode, hexist]
    refine iff_of_true ⟨⟨_, _, rfl, ?_⟩, ?_, ?_⟩ fun hnew => absurd hnew hold
    · exact IndexPool.of_map_eq h (map_group_modify t.list i new.mtrInfo)
    · rintro _ _ ⟨⟩ hnew
      exact absurd hnew hold
    · intro hop
      cases hop
  | none =>
    cases kmalloc with
    | false =>
      simp only [mtrAddNode, hexist, Bool.false_eq_true, if_false]
      exact iff_of_true (Kept.unchanged h (by simp) fun _ _ _ _ => rfl) fun _ hk => by cases hk
    | true =>
      simp only [mtrAddNode, hexist, if_true]
      apply kept_add h hexist
      · intro k hk heq
        have hsmall : k < 4294967296 := by omega
        simp [MtrPlcyNode.group, heq, mod_eq_of_lt hsmall]
      · intro heq
        rw [MtrPlcyNode.group, heq]
        show ¬ (BitVec.ofInt 32 (-1)).toNat < 64
        decide

theorem kept_mtrDelNode {t : PlcyTbl MtrPlcyNode} (h : TblOk MtrPlcyNode.group t)
    (del : MtrPlcyNode) : Kept MtrPlcyNode.group MtrNew t (.del del) (mtrDelNode del t) := by
  unfold mtrDelNode
  cases hfind : t.list.find? del.sameRule with
  | none => exact Kept.unchanged h (by simp) fun _ _ hop => by cases hop
  | some node =>
    obtain ⟨l', hset, hok⟩ := TblOk.del h hfind (rfl : node.mgNum.toNat = node.group)
    simp only [hset]
    refine ⟨⟨_, _, rfl, hok⟩, ?_, ?_⟩
    · intro _ _ hop
      cases hop
    · intro hop
      cases hop

theorem kept_mtrCall {t : PlcyTbl MtrPlcyNode} (h : TblOk MtrPlcyNode.group t)
    (op : PlcyOp MtrPlcyNode) :
    Kept MtrPlcyNode.group MtrNew t op (mtrCall t op) ↔ InBounds MtrNew t op := by
  cases op with
  | add new kmalloc => exact kept_mtrAddNode h new kmalloc
  | del node => exact iff_of_true (kept_mtrDelNode h node) trivial
  | clean => exact kept_clean h

/-! ## Runs -/

theorem along_kept_iff {call : PlcyTbl ν → PlcyOp ν → Option (Result × PlcyTbl ν)}
    (hcall : ∀ t, TblOk index t → ∀ op, Kept index isNew t op (call t op) ↔ InBounds isNew t op)
    (ops : List (PlcyOp ν)) : Along (stepM fun t op => (call t op).map Prod.snd)
        (OnSome fun t op => Kept index isNew t op (call t op)) (some PlcyTbl.init) ops ↔
      Along (stepM fun t op => (call t op).map Prod.snd) (OnSome (InBounds isNew))
        (some PlcyTbl.init) ops := by
  have h0 : ∃ t, some (PlcyTbl.init : PlcyTbl ν) = some t ∧ TblOk index t :=
    ⟨_, rfl, tblOk_init⟩
  have hstep : ∀ s op, (∃ t, s = some t ∧ TblOk index t) → OnSome (InBounds isNew) s op →
      ∃ t, stepM (fun t op => (call t op).map Prod.snd) s op = some t ∧ TblOk index t := by
    rintro _ op ⟨t, rfl, hok⟩ hop
    obtain ⟨⟨r, t', hout, hok'⟩, -, -⟩ := (hcall t hok op).mpr (onSome_some.mp hop)
    exact ⟨t', by simp [hout], hok'⟩
  apply along_iff_of_invariant ops hstep _ h0
  rintro _ op ⟨t, rfl, hok⟩
  rw [onSome_some, onSome_some]
  exact hcall t hok op

/-- **Group indices**: along a run, from the empty table, every operation keeps the table
    consistent, refuses a rule for which there is no group and makes all groups available by a
    clean if and only if no rule is added without a free group and only empty tables are cleaned,
    for the accounting table and for the meter table. -/
theorem group_indices_run (acOps : List (PlcyOp AcPlcyNode)) (mtrOps : List (PlcyOp MtrPlcyNode)) :
    (Along (stepM acStep) (OnSome fun t op => Kept AcPlcyNode.group AcNew t op (acCall t op))
        (some PlcyTbl.init) acOps ↔
      Along (stepM acStep) (OnSome (InBounds AcNew)) (some PlcyTbl.init) acOps) ∧
    (Along (stepM mtrStep) (OnSome fun t op => Kept MtrPlcyNode.group MtrNew t op (mtrCall t op))
        (some PlcyTbl.init) mtrOps ↔
      Along (stepM mtrStep) (OnSome (InBounds MtrNew)) (some PlcyTbl.init) mtrOps) :=
  ⟨along_kept_iff (fun _ h => kept_acCall h) acOps,
    along_kept_iff (fun _ h => kept_mtrCall h) mtrOps⟩

def acMacRule : AcPlcyNode := ⟨.preAc, .macGroup, 1, 0, 0, 0, 0⟩

/-- One rule is added and the table is cleaned: its group stays taken. -/
theorem clean_leaks_group : ¬ ∀ ops : List (PlcyOp AcPlcyNode), Along (stepM acStep)
      (OnSome fun t op => Kept AcPlcyNode.group AcNew t op (acCall t op))
      (some PlcyTbl.init) ops := by
  intro hall
  have hbounds := (along_kept_iff (fun _ h => kept_acCall h) _).mp
    (hall [.add acMacRule true, .clean])
  have hempty : [{ acMacRule with agIdx := BitVec.ofInt 8 (ppeGetFreeGrp fun _ => 0).1 }] = [] :=
    hbounds.2.1 _ rfl
  exact absurd hempty (by simp)

end RalinkSdk.HwNat
