import Mathlib.Data.List.Flatten
import RalinkSdk.HwNat.Acl
import RalinkSdk.Lib.TableWrite

/-!
# The part of the policy table that the ACL has

`AclBndryCheck` counts the entries of a new rule ahead of time.  It does not count the two default
entries that follow when the new rule allows and the last rule before it does not, and it counts
seven entries for the longest kind of rule, which can have nine.  With room for what it leaves
out, no run of ioctls writes an entry of the ACL where the metering rules begin.

## Main results

- `inserts_eq`, `inserts_below`, `inserts_at`: where `PpeInsAclEntry` writes, entry after entry.
-/

namespace RalinkSdk.HwNat

open Lib List BitVec Nat

variable {ω : Type}

/-! ## The entries of a list -/

/-- The default entries after a list. -/
def dflEntries (list : List AclPlcyNode) : List PolicyEntry :=
  match list.getLast? with
  | none => []
  | some node => if node.method = .allow then [aclInsDflAllow, aclInsDflDeny] else []

/-- The entries that `SyncAclTbl` writes for a list. -/
def aclEntries (list : List AclPlcyNode) : List PolicyEntry :=
  list.flatMap aclInsNode ++ dflEntries list

theorem length_dflEntries_le (list : List AclPlcyNode) : (dflEntries list).length ≤ 2 := by
  unfold dflEntries
  split
  · simp
  · split <;> simp

theorem foldl_aclInsNode (list : List AclPlcyNode) (s : AclTbl ω) :
    list.foldl (fun s node => (aclInsNode node).foldl ppeInsAclEntry s) s =
      (list.flatMap aclInsNode).foldl ppeInsAclEntry s := by
  induction list generalizing s with
  | nil => rfl
  | cons node list ih =>
    rw [foldl_cons, ih, flatMap_cons, foldl_append]

/-- **`SyncAclTbl` inserts the entries of the list from index 0.** -/
theorem syncAclTbl_eq (s : AclTbl ω) :
    syncAclTbl s = { (aclEntries s.list).foldl ppeInsAclEntry s.disable with
      aclEbl := !s.list.isEmpty } := by
  unfold syncAclTbl aclEntries dflEntries
  rw [foldl_aclInsNode, foldl_append]
  cases hlast : s.list.getLast? with
  | none =>
    -- nothing is inserted, and the table stays disabled
    have hnil : s.list = [] := getLast?_eq_none_iff.mp hlast
    simp [hnil, AclTbl.disable]
  | some node =>
    have hne : s.list.isEmpty = false := by
      rw [isEmpty_eq_false_iff]
      intro hnil
      simp [hnil] at hlast
    by_cases hallow : node.method = .allow
    · simp [hallow, hne]
    · simp [hallow, hne]

/-! ## Inserting entries -/

@[simp] theorem list_inserts (es : List PolicyEntry) (s : AclTbl ω) :
    (es.foldl ppeInsAclEntry s).list = s.list := by
  induction es generalizing s with
  | nil => rfl
  | cons e es ih => exact ih (ppeInsAclEntry s e)

theorem inserts_eq (es : List PolicyEntry) (s : AclTbl ω) :
    (es.foldl ppeInsAclEntry s).table = putAll s.table s.aclEnd (es.map .acl) ∧
      (es.foldl ppeInsAclEntry s).aclEnd = s.aclEnd + BitVec.ofNat 9 es.length := by
  induction es generalizing s with
  | nil => exact ⟨rfl, (BitVec.add_zero _).symm⟩
  | cons e es ih =>
    obtain ⟨htable, hend⟩ := ih (ppeInsAclEntry s e)
    exact ⟨htable, hend.trans (succ_add_ofNat _ _)⟩

theorem inserts_below {m : Nat} (hm : m < 512) (es : List PolicyEntry) (s : AclTbl ω)
    (hfit : s.aclEnd.toNat + es.length ≤ m) :
    (es.foldl ppeInsAclEntry s).aclEnd.toNat = s.aclEnd.toNat + es.length ∧
      ∀ i, m ≤ i → (es.foldl ppeInsAclEntry s).table i = s.table i := by
  obtain ⟨htable, hend⟩ := inserts_eq es s
  constructor
  · have hlen : es.length % 512 = es.length := mod_eq_of_lt (by omega)
    rw [hend, toNat_add, toNat_ofNat, hlen]
    exact mod_eq_of_lt (Nat.lt_of_le_of_lt hfit hm)
  · intro i hi
    rw [htable]
    rcases Nat.lt_or_ge i 512 with hlt | hge
    · -- the entries do not reach as far as `i`
      have hindex : (BitVec.ofNat 9 i).toNat = i := mod_eq_of_lt hlt
      have hahead : ahead s.aclEnd (BitVec.ofNat 9 i) = i - s.aclEnd.toNat := by
        rw [ahead_of_le (le_def.mpr (by omega)), hindex]
      have hsame := putAll_outside (es.map Slot.acl) s.table s.aclEnd
        (show (es.map Slot.acl).length ≤ ahead s.aclEnd (BitVec.ofNat 9 i) by
          rw [hahead, length_map]
          omega)
      rwa [hindex] at hsame
    · exact putAll_above _ _ _ hge

theorem inserts_at {m : Nat} (hm : m < 512) (es : List PolicyEntry) (s : AclTbl ω)
    (hend : s.aclEnd.toNat ≤ m) (hlong : m < s.aclEnd.toNat + es.length) :
    ∃ e, (es.foldl ppeInsAclEntry s).table m = .acl e := by
  have hindex : (BitVec.ofNat 9 m).toNat = m := mod_eq_of_lt hm
  have hentries : ∀ slot ∈ (es.map .acl : List (Slot ω)), ∃ e, slot = .acl e := by
    intro slot hslot
    obtain ⟨e, -, rfl⟩ := mem_map.mp hslot
    exact ⟨e, rfl⟩
  have hreach := putAll_reaches hentries s.table s.aclEnd
    (show ahead s.aclEnd (BitVec.ofNat 9 m) < (es.map Slot.acl).length by
      rw [ahead_of_le (le_def.mpr (by omega)), hindex, length_map]
      omega)
  rwa [hindex, ← (inserts_eq es s).1] at hreach

/-! ## The property and its condition -/

/-- No entry of the ACL is where the metering rules begin, or behind it. -/
def MtrIntact (mtrStr : BitVec 9) (s : AclTbl ω) : Prop :=
  ∀ i, mtrStr.toNat ≤ i → ∀ e, s.table i ≠ .acl e

/-- The rules and the default entries fit below the metering rules. -/
def ListFits (mtrStr : BitVec 9) (list : List AclPlcyNode) : Prop :=
  (aclEntries list).length ≤ mtrStr.toNat

/-- A rule that `AclBndryCheck` lets through fits: its entries and the default entries that it
    brings, counted from the end of the ACL less the default entries that are there now. -/
def RuleFits (mtrStr : BitVec 9) (s : AclTbl ω) : AclCmd → Prop
  | .add node kmalloc =>
    let new := { node with proto := node.handlerProto }
    aclExistNode new s = none → aclBndryCheck mtrStr new s ≠ .tblFull → kmalloc = true →
      s.aclEnd.toNat + (aclInsNode new).length + (dflEntries [new]).length ≤
        mtrStr.toNat + (dflEntries s.list).length
  | _ => True

/-- A list has room: it fits, and without its last rule it would still fit together with the
    default entries. -/
structure HasRoom (mtrStr : BitVec 9) (list : List AclPlcyNode) : Prop where
  fits : ListFits mtrStr list
  shorter : list ≠ [] → (list.dropLast.flatMap aclInsNode).length + 2 ≤ mtrStr.toNat

/-- What holds along a run. -/
structure AclInv (mtrStr : BitVec 9) (s : AclTbl ω) : Prop where
  endsAt : s.aclEnd.toNat = (aclEntries s.list).length
  room : HasRoom mtrStr s.list
  intact : MtrIntact mtrStr s

variable {mtrStr : BitVec 9} {s : AclTbl ω}

/-! ## Writing the list anew -/

theorem length_aclEntries_append (list : List AclPlcyNode) (node : AclPlcyNode) :
    (aclEntries (list ++ [node])).length = (list.flatMap aclInsNode).length +
      (aclInsNode node).length + (dflEntries [node]).length := by
  have hdfl : dflEntries (list ++ [node]) = dflEntries [node] := by simp [dflEntries]
  rw [aclEntries, hdfl, flatMap_append, length_append, length_append, flatMap_singleton]

theorem list_syncAclTbl (s : AclTbl ω) : (syncAclTbl s).list = s.list := by
  rw [syncAclTbl_eq]
  exact list_inserts _ _

theorem mtrIntact_syncAclTbl (h : MtrIntact mtrStr s) :
    MtrIntact mtrStr (syncAclTbl s) ↔ ListFits mtrStr s.list := by
  have hzero : s.disable.aclEnd.toNat = 0 := rfl
  rw [syncAclTbl_eq]
  constructor
  · intro hkept
    by_contra hlong
    -- the entries go past the end of the ACL's part, so they are also at its end
    obtain ⟨e, he⟩ := inserts_at mtrStr.isLt (aclEntries s.list) s.disable (by omega)
      (by rw [hzero, Nat.zero_add]; exact Nat.lt_of_not_le hlong)
    exact hkept mtrStr.toNat (Nat.le_refl _) e he
  · intro hfit i hi e he
    have hsame := (inserts_below mtrStr.isLt (aclEntries s.list) s.disable
      (by rw [hzero, Nat.zero_add]; exact hfit)).2 i hi
    exact h i hi e (hsame ▸ he)

theorem aclInv_syncAclTbl (h : MtrIntact mtrStr s) (hroom : HasRoom mtrStr s.list) :
    AclInv mtrStr (syncAclTbl s) where
  endsAt := by
    have hzero : s.disable.aclEnd.toNat = 0 := rfl
    rw [list_syncAclTbl, syncAclTbl_eq]
    have hend := (inserts_below mtrStr.isLt (aclEntries s.list) s.disable
      (by rw [hzero, Nat.zero_add]; exact hroom.fits)).1
    rw [hzero, Nat.zero_add] at hend
    exact hend
  room := by
    rw [list_syncAclTbl]
    exact hroom
  intact := (mtrIntact_syncAclTbl h).mpr hroom.fits

/-! ## Deleting a rule -/

theorem hasRoom_nil (mtrStr : BitVec 9) : HasRoom mtrStr [] :=
  ⟨Nat.zero_le _, fun h => absurd rfl h⟩

theorem listFits_of_add_two {list : List AclPlcyNode}
    (h : (list.flatMap aclInsNode).length + 2 ≤ mtrStr.toNat) : ListFits mtrStr list := by
  have hdfl := length_dflEntries_le list
  rw [ListFits, aclEntries, length_append]
  omega

theorem length_flatMap_le {l l' : List AclPlcyNode} (h : l'.Sublist l) :
    (l'.flatMap aclInsNode).length ≤ (l.flatMap aclInsNode).length :=
  (h.flatMap aclInsNode).length_le

theorem HasRoom.init {list : List AclPlcyNode} {node : AclPlcyNode}
    (h : HasRoom mtrStr (list ++ [node])) : HasRoom mtrStr list := by
  have hshort := h.shorter (by simp)
  rw [dropLast_concat] at hshort
  refine ⟨listFits_of_add_two hshort, fun _ => ?_⟩
  have hsub := length_flatMap_le (dropLast_sublist list)
  omega

/-- **Deleting**: what is left of a list with room has room, though other default entries may
    follow it. -/
theorem HasRoom.sublist {l l' : List AclPlcyNode} (h : HasRoom mtrStr l) (hsub : l'.Sublist l) :
    HasRoom mtrStr l' := by
  induction l using reverseRecOn with
  | nil =>
    rw [sublist_nil.mp hsub]
    exact hasRoom_nil mtrStr
  | append_singleton l node ih =>
    obtain ⟨r, t, rfl, hr, ht⟩ := sublist_append_iff.mp hsub
    rcases sublist_singleton.mp ht with rfl | rfl
    · -- the last rule is gone
      rw [append_nil] at ih ⊢
      apply ih h.init
      exact hr
    · -- the last rule is still there, and the same default entries follow it
      have hlen := length_flatMap_le hr
      have hfits := h.fits
      have hshort := h.shorter (by simp)
      rw [ListFits, length_aclEntries_append] at hfits
      rw [dropLast_concat] at hshort
      refine ⟨?_, fun _ => ?_⟩
      · rw [ListFits, length_aclEntries_append]
        omega
      · rw [dropLast_concat]
        omega

/-! ## Adding a rule -/

theorem length_aclEntries (list : List AclPlcyNode) :
    (aclEntries list).length = (list.flatMap aclInsNode).length + (dflEntries list).length :=
  length_append

theorem ruleSize_pos (t : AclRuleType) : 0 < t.ruleSize := by
  cases t <;> decide

theorem aclBndryCheck_ne_full {new : AclPlcyNode} (hnew : aclExistNode new s = none)
    (h : aclBndryCheck mtrStr new s ≠ .tblFull) :
    s.aclEnd.toNat + new.ruleType.ruleSize < mtrStr.toNat := by
  by_contra hfull
  apply h
  rw [aclBndryCheck, hnew]
  exact if_pos (Nat.le_of_not_lt hfull)

theorem runIoctlAddHandler_cases (mtrStr : BitVec 9) (node : AclPlcyNode) (proto : AclProtoType)
    (kmalloc : Bool) (s : AclTbl ω) :
    let new := { node with proto := proto }
    let added := aclExistNode new s = none ∧ aclBndryCheck mtrStr new s ≠ .tblFull ∧ kmalloc = true
    (added ∧ (runIoctlAddHandler mtrStr node proto kmalloc s).2 =
      syncAclTbl { s with list := s.list ++ [new] }) ∨
    (¬ added ∧ (runIoctlAddHandler mtrStr node proto kmalloc s).2 = s) := by
  intro new added
  by_cases hfull : aclBndryCheck mtrStr new s = .tblFull
  · exact .inr ⟨fun h => h.2.1 hfull, by simp [runIoctlAddHandler, new, hfull]⟩
  · have hadd : runIoctlAddHandler mtrStr node proto kmalloc s = aclAddNode new kmalloc s := by
      cases hcheck : aclBndryCheck mtrStr new s with
      | tblFull => exact absurd hcheck hfull
      | success => simp only [runIoctlAddHandler, new, hcheck]
      | fail => simp only [runIoctlAddHandler, new, hcheck]
    rw [hadd]
    cases hexist : aclExistNode new s with
    | some found => exact .inr ⟨by simp [added, hexist], by simp [aclAddNode, hexist]⟩
    | none =>
      cases kmalloc with
      | false => exact .inr ⟨by simp [added], by simp [aclAddNode, hexist]⟩
      | true => exact .inl ⟨⟨hexist, hfull, rfl⟩, by simp [aclAddNode, hexist]⟩

theorem listFits_append (h : AclInv mtrStr s) (new : AclPlcyNode) :
    ListFits mtrStr (s.list ++ [new]) ↔
      s.aclEnd.toNat + (aclInsNode new).length + (dflEntries [new]).length ≤
        mtrStr.toNat + (dflEntries s.list).length := by
  rw [ListFits, length_aclEntries_append, h.endsAt, length_aclEntries]
  omega

/-- **Adding**: a rule that `AclBndryCheck` lets through and that fits leaves room. -/
theorem hasRoom_append (h : AclInv mtrStr s) {new : AclPlcyNode}
    (hnew : aclExistNode new s = none) (hcheck : aclBndryCheck mtrStr new s ≠ .tblFull)
    (hfits : ListFits mtrStr (s.list ++ [new])) : HasRoom mtrStr (s.list ++ [new]) := by
  refine ⟨hfits, fun _ => ?_⟩
  -- the estimate is at least 1 and the check is strict
  have hlt := aclBndryCheck_ne_full hnew hcheck
  have hpos := ruleSize_pos new.ruleType
  rw [h.endsAt, length_aclEntries] at hlt
  rw [dropLast_concat]
  omega

/-! ## One ioctl -/

theorem runIoctlDelHandler_cases (del : AclPlcyNode) (proto : AclProtoType) (s : AclTbl ω) :
    (∃ list, list.Sublist s.list ∧
      (runIoctlDelHandler del proto s).2 = syncAclTbl { s with list := list }) ∨
    (runIoctlDelHandler del proto s).2 = s := by
  unfold runIoctlDelHandler aclDelNode
  split
  · exact .inr rfl
  · exact .inl ⟨_, eraseP_sublist, rfl⟩

/-- **Step**: an ioctl keeps to the part of the ACL if and only if the rule that it adds fits. -/
theorem mtrIntact_aclIoctl_iff (h : AclInv mtrStr s) (cmd : AclCmd) :
    MtrIntact mtrStr (aclIoctl mtrStr s cmd) ↔ RuleFits mtrStr s cmd := by
  cases cmd with
  | add node kmalloc =>
    obtain ⟨⟨hnew, hcheck, hmem⟩, heq⟩ | ⟨hnot, heq⟩ :=
      runIoctlAddHandler_cases mtrStr node node.handlerProto kmalloc s
    · rw [aclIoctl, heq, mtrIntact_syncAclTbl (by exact h.intact)]
      refine (listFits_append h _).trans ⟨fun hfit _ _ _ => hfit, fun hfit => ?_⟩
      exact hfit hnew hcheck hmem
    · rw [aclIoctl, heq]
      exact iff_of_true h.intact fun hnew hcheck hmem => absurd ⟨hnew, hcheck, hmem⟩ hnot
  | del node =>
    refine iff_of_true ?_ trivial
    obtain ⟨list, hsub, heq⟩ | heq := runIoctlDelHandler_cases node node.handlerProto s
    · rw [aclIoctl, heq]
      exact (mtrIntact_syncAclTbl (by exact h.intact)).mpr (h.room.sublist hsub).fits
    · rw [aclIoctl, heq]
      exact h.intact
  | cleanTbl => exact iff_of_true h.intact trivial
  | getAllEntries => exact iff_of_true h.intact trivial
  | unknown => exact iff_of_true h.intact trivial

/-- **Step**: the invariant goes on as long as the rules that are added fit. -/
theorem aclInv_aclIoctl (h : AclInv mtrStr s) {cmd : AclCmd} (hfits : RuleFits mtrStr s cmd) :
    AclInv mtrStr (aclIoctl mtrStr s cmd) := by
  cases cmd with
  | add node kmalloc =>
    obtain ⟨⟨hnew, hcheck, hmem⟩, heq⟩ | ⟨-, heq⟩ :=
      runIoctlAddHandler_cases mtrStr node node.handlerProto kmalloc s
    · rw [aclIoctl, heq]
      apply aclInv_syncAclTbl (by exact h.intact)
      apply hasRoom_append h hnew hcheck
      exact (listFits_append h _).mpr (hfits hnew hcheck hmem)
    · rw [aclIoctl, heq]
      exact h
  | del node =>
    obtain ⟨list, hsub, heq⟩ | heq := runIoctlDelHandler_cases node node.handlerProto s
    · rw [aclIoctl, heq]
      exact aclInv_syncAclTbl (by exact h.intact) (h.room.sublist hsub)
    · rw [aclIoctl, heq]
      exact h
  | cleanTbl => exact ⟨rfl, hasRoom_nil mtrStr, h.intact⟩
  | getAllEntries => exact h
  | unknown => exact h

/-! ## Runs -/

theorem aclInv_init (mtrStr : BitVec 9) (table : Nat → ω) : AclInv mtrStr (AclTbl.init table) where
  endsAt := rfl
  room := hasRoom_nil mtrStr
  intact := by
    intro i _ e h
    cases h

/-- **The ACL keeps to its part of the policy table.**  Along a run of ioctls no entry of the ACL
    is written where the metering rules begin or behind it, if and only if every rule that the run
    adds fits; and then the whole list fits. -/
theorem acl_region_run_iff (mtrStr : BitVec 9) (table : Nat → ω) (cmds : List AclCmd) :
    (Along (aclIoctl mtrStr) (fun s cmd => MtrIntact mtrStr (aclIoctl mtrStr s cmd))
        (AclTbl.init table) cmds ↔
      Along (aclIoctl mtrStr) (RuleFits mtrStr) (AclTbl.init table) cmds) ∧
    (Along (aclIoctl mtrStr) (RuleFits mtrStr) (AclTbl.init table) cmds →
      ListFits mtrStr (runEvents (aclIoctl mtrStr) (AclTbl.init table) cmds).list) := by
  have hstep : ∀ (s : AclTbl ω) (cmd : AclCmd), AclInv mtrStr s → RuleFits mtrStr s cmd →
      AclInv mtrStr (aclIoctl mtrStr s cmd) := fun s cmd h hfits => aclInv_aclIoctl h hfits
  constructor
  · apply along_iff_of_invariant cmds hstep _ (aclInv_init mtrStr table)
    intro s cmd h
    exact mtrIntact_aclIoctl_iff h cmd
  · intro hrun
    exact (hrun.invariant hstep (aclInv_init mtrStr table)).room.fits

def allowAddress (mac : BitVec 48) : AclPlcyNode :=
  ⟨.allow, .any, .sdmacAny, mac, 0, 0, 0, 0, 0, 0, 0, 0, 0, 0, 0, 0, 0, 0, 0, 7⟩

/-- With two entries for the ACL, a first rule that allows passes the check, and `AclInsDflDeny`
    writes the third entry over the first metering rule. -/
theorem acl_default_overwrites_meter :
    ¬ ∀ (mtrStr : BitVec 9) (table : Nat → Unit) (cmds : List AclCmd),
      MtrIntact mtrStr (runEvents (aclIoctl mtrStr) (AclTbl.init table) cmds) := by
  intro h
  apply h 2 (fun _ => ()) [.add (allowAddress 1) true] 2 (by decide) aclInsDflDeny
  rfl

end RalinkSdk.HwNat
