import RalinkSdk.HwNat.PolicySync

/-!
# Where the metering and accounting rules are written

Every rule has one entry at most, and the entries for one part of the policy table are written one
behind the other from the start of the part.  So they are inside the part as long as there are no
more of them than it holds; the functions do not count.
-/

namespace RalinkSdk.HwNat

open Lib Nat

/-! ## Sequences of entries -/

section

variable {τ ε : Type} [DecidableEq τ]

/-- Inserting entries, each with its part, one after the other. -/
def PlcyHw.insAll (s : PlcyHw τ ε) (es : List (τ × ε)) : PlcyHw τ ε :=
  es.foldl (fun s e => s.insEntry e.2 e.1) s

@[simp] theorem insAll_nil (s : PlcyHw τ ε) : s.insAll [] = s := rfl

@[simp] theorem insAll_cons (s : PlcyHw τ ε) (e : τ × ε) (es : List (τ × ε)) :
    s.insAll (e :: es) = (s.insEntry e.2 e.1).insAll es := rfl

@[simp] theorem ebl_insAll (s : PlcyHw τ ε) (es : List (τ × ε)) : (s.insAll es).ebl = s.ebl := by
  induction es generalizing s with
  | nil => rfl
  | cons e es ih => exact ih (s.insEntry e.2 e.1)

/-- The number of entries for a part. -/
def entriesOf (t : τ) (es : List (τ × ε)) : Nat := es.countP fun e => e.1 = t

theorem entriesOf_cons (t : τ) (e : τ × ε) (es : List (τ × ε)) :
    entriesOf t (e :: es) = if e.1 = t then entriesOf t es + 1 else entriesOf t es := by
  unfold entriesOf
  rw [List.countP_cons]
  by_cases hpart : e.1 = t <;> simp [hpart]

/-- **The entries for a part** are written from its pointer on. -/
theorem insAll_index (s : PlcyHw τ ε) (es : List (τ × ε)) (t : τ) (i : BitVec 9) :
    (∃ w ∈ (s.insAll es).writes, w.part = t ∧ w.index = i) ↔
      (∃ w ∈ s.writes, w.part = t ∧ w.index = i) ∨
        ∃ k, k < entriesOf t es ∧ i = s.last t + BitVec.ofNat 9 k := by
  induction es generalizing s with
  | nil => simp [entriesOf]
  | cons e es ih =>
    rw [insAll_cons, ih, entriesOf_cons]
    have hwrite : (∃ w ∈ (s.insEntry e.2 e.1).writes, w.part = t ∧ w.index = i) ↔
        (∃ w ∈ s.writes, w.part = t ∧ w.index = i) ∨ e.1 = t ∧ s.last e.1 = i := by
      simp [PlcyHw.insEntry, or_and_right, exists_or]
    rw [hwrite, or_assoc]
    refine or_congr_right ?_
    by_cases hpart : e.1 = t
    · -- this entry is the first one, and the others follow it
      have hlast : (s.insEntry e.2 e.1).last t = s.last t + 1 := by
        simp [PlcyHw.insEntry, hpart]
      rw [hlast, hpart, if_pos rfl]
      simp only [succ_add_ofNat, true_and]
      constructor
      · rintro (rfl | ⟨k, hk, rfl⟩)
        · exact ⟨0, succ_pos _, (BitVec.add_zero _).symm⟩
        · exact ⟨k + 1, succ_lt_succ hk, rfl⟩
      · rintro ⟨k, hk, rfl⟩
        cases k with
        | zero => exact .inl (BitVec.add_zero _).symm
        | succ k => exact .inr ⟨k, lt_of_succ_lt_succ hk, rfl⟩
    · have hlast : (s.insEntry e.2 e.1).last t = s.last t :=
        Function.update_of_ne (Ne.symm hpart) _ _
      rw [hlast]
      simp [hpart]

theorem ahead_lt_iff (start : BitVec 9) (n size : Nat) :
    (∀ k, k < n → ahead start (start + BitVec.ofNat 9 k) < size) ↔ min n 512 ≤ size := by
  constructor
  · intro h
    by_contra hnot
    -- the first position behind the part would be used
    obtain ⟨hn, hbits⟩ := lt_min_iff.mp (Nat.lt_of_not_le hnot)
    have hfull := h size hn
    rw [ahead_ofNat _ hbits] at hfull
    exact Nat.lt_irrefl _ hfull
  · intro h k hk
    obtain hle | hle := min_le_iff.mp h
    · by_cases hbits : k < 512
      · rw [ahead_ofNat _ hbits]
        exact Nat.lt_of_lt_of_le hk hle
      · -- the pointer has come round
        have hlt := ahead_lt start (start + BitVec.ofNat 9 k)
        omega
    · exact Nat.lt_of_lt_of_le (ahead_lt _ _) hle

/-! ## What is meant -/

/-- The parts with a rule are enabled, and every entry is inside the part that it is meant for. -/
structure Synced (part : τ → BitVec 16 × BitVec 16) (hasRule : τ → Prop) (s : PlcyHw τ ε) :
    Prop where
  enabled : ∀ t, s.ebl t = true ↔ hasRule t
  inside : ∀ w ∈ s.writes,
    ahead ((part w.part).1.setWidth 9) w.index < (part w.part).2.toNat

/-- The entries of a part, cut to the positions of the pointer, are no more than it holds. -/
def EntriesFit (part : τ → BitVec 16 × BitVec 16) (es : List (τ × ε)) : Prop :=
  ∀ t, min (entriesOf t es) 512 ≤ (part t).2.toNat

theorem inside_iff (part : τ → BitVec 16 × BitVec 16) (s : PlcyHw τ ε) (es : List (τ × ε))
    (hnone : s.writes = []) (hlast : ∀ t, s.last t = (part t).1.setWidth 9) :
    (∀ w ∈ (s.insAll es).writes,
      ahead ((part w.part).1.setWidth 9) w.index < (part w.part).2.toNat) ↔
      EntriesFit part es := by
  have hindex : ∀ t i, (∃ w ∈ (s.insAll es).writes, w.part = t ∧ w.index = i) ↔
      ∃ k, k < entriesOf t es ∧ i = (part t).1.setWidth 9 + BitVec.ofNat 9 k := fun t i => by
    rw [insAll_index, hnone, hlast]
    simp
  have hfit : EntriesFit part es ↔ ∀ t k, k < entriesOf t es →
      ahead ((part t).1.setWidth 9) ((part t).1.setWidth 9 + BitVec.ofNat 9 k) <
        (part t).2.toNat :=
    forall_congr' fun t => (ahead_lt_iff _ _ _).symm
  rw [hfit]
  constructor
  · intro h t k hk
    obtain ⟨w, hw, rfl, hi⟩ := (hindex t _).mpr ⟨k, hk, rfl⟩
    rw [← hi]
    exact h w hw
  · intro h w hw
    obtain ⟨k, hk, hi⟩ := (hindex w.part w.index).mp ⟨w, hw, rfl, rfl⟩
    rw [hi]
    exact h w.part k hk

end

/-! ## Metering rules -/

/-- The entry of a rule, if it has one: only addresses are metered for packets that go out. -/
def mtrEntryOf (node : MtrPlcyNode) : Option (MtrType × MtrEntry) :=
  let entry := fun what => (node.type, (⟨what, node.mgNum.setWidth 6⟩ : MtrEntry))
  let range := calIpRange node.ipS node.ipE
  match node.type, node.ruleType with
  | .preMtr, .macGroup => some (entry (.mac .smac node.mac))
  | .postMtr, .macGroup => some (entry (.mac .dmac node.mac))
  | .preMtr, .ipGroup => some (entry (.ip .sip node.ipS range.1 range.2))
  | .postMtr, .ipGroup => some (entry (.ip .dip node.ipS range.1 range.2))
  | .preMtr, .syn => some (entry (.tcpFlag 2))
  | .preMtr, .fin => some (entry (.tcpFlag 1))
  | .preMtr, .protocolUdp => some (entry (.prot 0x11))
  | .preMtr, .protocolIcmp => some (entry (.prot 1))
  | .postMtr, _ => none

theorem policy_mtrInsNode (s : MtrHw) (node : MtrPlcyNode) :
    (mtrInsNode s node).policy = s.policy.insAll (mtrEntryOf node).toList := by
  unfold mtrInsNode mtrEntryOf
  cases htype : node.type <;> cases hkind : node.ruleType <;>
    simp [mtrInsMac, mtrInsIp, mtrInsSYN, mtrInsFIN, mtrInsProtocol, mtrInsL4, ppeInsMtrTbl,
      ppeInsMtrEntry, htype, hkind]

theorem policy_foldl_mtrInsNode (list : List MtrPlcyNode) (s : MtrHw) :
    (list.foldl mtrInsNode s).policy = s.policy.insAll (list.filterMap mtrEntryOf) := by
  induction list generalizing s with
  | nil => rfl
  | cons node list ih =>
    rw [List.foldl_cons, ih, policy_mtrInsNode]
    cases hentry : mtrEntryOf node with
    | none => simp [hentry]
    | some e => simp [hentry]

/-- The registers at the start of `SyncMtrTbl`. -/
def mtrReset (size : RuleSize) (s : PlcyHw MtrType MtrEntry) : PlcyHw MtrType MtrEntry :=
  (s.disable (fun t => (size.mtrPart t).1) .preMtr).disable (fun t => (size.mtrPart t).1) .postMtr

theorem policy_syncMtrTbl (size : RuleSize) (list : List MtrPlcyNode) (s : MtrHw) :
    (syncMtrTbl size list s).policy =
      let s₂ := (mtrReset size s.policy).insAll (list.filterMap mtrEntryOf)
      if list.any fun node => node.type = .preMtr then s₂.enable .preMtr
      else if list.any fun node => node.type ≠ .preMtr then s₂.enable .postMtr
      else s₂ := by
  simp only [syncMtrTbl, apply_ite MtrHw.policy, policy_foldl_mtrInsNode]
  rfl

/-- The list has a rule of a type. -/
def HasMtrRule (list : List MtrPlcyNode) (t : MtrType) : Prop := ∃ node ∈ list, node.type = t

theorem any_preMtr (list : List MtrPlcyNode) :
    (list.any fun node => node.type = .preMtr) = true ↔ HasMtrRule list .preMtr := by
  simp [HasMtrRule]

theorem any_postMtr (list : List MtrPlcyNode) :
    (list.any fun node => node.type ≠ .preMtr) = true ↔ HasMtrRule list .postMtr := by
  have htype : ∀ t : MtrType, t ≠ .preMtr ↔ t = .postMtr := fun t => by cases t <;> decide
  simp only [List.any_eq_true, decide_eq_true_eq, htype, HasMtrRule]

section

variable (size : RuleSize) (list : List MtrPlcyNode) (s : MtrHw)

theorem ebl_syncMtrTbl (t : MtrType) : (syncMtrTbl size list s).policy.ebl t = true ↔
      HasMtrRule list t ∧ (t = .postMtr → ¬ HasMtrRule list .preMtr) := by
  have hoff : ∀ t, (mtrReset size s.policy).ebl t = false := fun t => by cases t <;> rfl
  rw [policy_syncMtrTbl, ← any_preMtr]
  cases t with
  | preMtr =>
    rw [← any_preMtr]
    cases list.any fun node => node.type = .preMtr with
    | true => simp [PlcyHw.enable]
    | false =>
      cases list.any fun node => node.type ≠ .preMtr with
      | true => simp [PlcyHw.enable, hoff]
      | false => simp [hoff]
  | postMtr =>
    rw [← any_postMtr]
    cases list.any fun node => node.type = .preMtr with
    -- the `else if` leaves the part for packets that go out disabled
    | true => simp [PlcyHw.enable, hoff]
    | false =>
      cases list.any fun node => node.type ≠ .preMtr with
      | true => simp [PlcyHw.enable]
      | false => simp [hoff]

theorem writes_syncMtrTbl : (syncMtrTbl size list s).policy.writes =
      ((mtrReset size s.policy).insAll (list.filterMap mtrEntryOf)).writes := by
  rw [policy_syncMtrTbl]
  dsimp only
  split
  · rfl
  · split
    · rfl
    · rfl

theorem mtrSynced_iff (hnone : s.policy.writes = []) :
    Synced size.mtrPart (HasMtrRule list) (syncMtrTbl size list s).policy ↔
      ¬ (HasMtrRule list .preMtr ∧ HasMtrRule list .postMtr) ∧
        EntriesFit size.mtrPart (list.filterMap mtrEntryOf) := by
  have hinside := inside_iff size.mtrPart (mtrReset size s.policy) (list.filterMap mtrEntryOf)
    hnone (fun t => by cases t <;> rfl)
  rw [← writes_syncMtrTbl] at hinside
  constructor
  · intro h
    -- with rules for both directions the second part would be off
    refine ⟨fun hboth => ?_, hinside.mp h.inside⟩
    have hpost := (h.enabled .postMtr).mpr hboth.2
    exact ((ebl_syncMtrTbl size list s .postMtr).mp hpost).2 rfl hboth.1
  · rintro ⟨hone, hfit⟩
    refine ⟨fun t => ?_, hinside.mpr hfit⟩
    rw [ebl_syncMtrTbl]
    refine and_iff_left_of_imp ?_
    rintro hrule rfl hpre
    exact hone ⟨hpre, hrule⟩

end

/-! ## Accounting rules -/

/-- The registers at the start of `SyncAcTbl`. -/
def acReset (size : RuleSize) (s : PlcyHw AcType AcEntry) : PlcyHw AcType AcEntry :=
  (s.disable (fun t => (size.acPart t).1) .preAc).disable (fun t => (size.acPart t).1) .postAc

/-- The entry of a rule, with its part. -/
def acEntryOf (node : AcPlcyNode) : AcType × AcEntry :=
  (node.type, ⟨acMatchOf node, node.agIdx.setWidth 6⟩)

theorem foldl_acInsNode (list : List AcPlcyNode) (s : PlcyHw AcType AcEntry) :
    list.foldl acInsNode s = s.insAll (list.map acEntryOf) := by
  induction list generalizing s with
  | nil => rfl
  | cons node list ih => exact ih (acInsNode s node)

/-- The list has a rule of a type. -/
def HasAcRule (list : List AcPlcyNode) (t : AcType) : Prop := ∃ node ∈ list, node.type = t

section

variable (size : RuleSize) (list : List AcPlcyNode) (s : PlcyHw AcType AcEntry)

theorem ebl_syncAcTbl (t : AcType) : (syncAcTbl size list s).ebl t = true ↔ HasAcRule list t := by
  have hoff : ∀ t, (acReset size s).ebl t = false := fun t => by cases t <;> rfl
  have hpre : (list.any fun node => node.type = .preAc) = true ↔ HasAcRule list .preAc := by
    simp [HasAcRule]
  have hpost : (list.any fun node => node.type ≠ .preAc) = true ↔ HasAcRule list .postAc := by
    have htype : ∀ t : AcType, t ≠ .preAc ↔ t = .postAc := fun t => by cases t <;> decide
    simp only [List.any_eq_true, decide_eq_true_eq, htype, HasAcRule]
  have hsync : (syncAcTbl size list s).ebl =
      let s₂ := (acReset size s).insAll (list.map acEntryOf)
      let s₃ := if list.any fun node => node.type = .preAc then s₂.enable .preAc else s₂
      (if list.any fun node => node.type ≠ .preAc then s₃.enable .postAc else s₃).ebl := by
    simp only [syncAcTbl, foldl_acInsNode]
    rfl
  rw [hsync]
  cases t with
  | preAc =>
    rw [← hpre]
    cases list.any fun node => node.type = .preAc <;>
      cases list.any fun node => node.type ≠ .preAc <;> simp [PlcyHw.enable, hoff]
  | postAc =>
    rw [← hpost]
    cases list.any fun node => node.type = .preAc <;>
      cases list.any fun node => node.type ≠ .preAc <;> simp [PlcyHw.enable, hoff]

theorem writes_syncAcTbl : (syncAcTbl size list s).writes =
      ((acReset size s).insAll (list.map acEntryOf)).writes := by
  simp only [syncAcTbl, foldl_acInsNode]
  split <;> split <;> rfl

theorem acSynced_iff (hnone : s.writes = []) :
    Synced size.acPart (HasAcRule list) (syncAcTbl size list s) ↔
      EntriesFit size.acPart (list.map acEntryOf) := by
  have hinside := inside_iff size.acPart (acReset size s) (list.map acEntryOf) hnone
    (fun t => by cases t <;> rfl)
  rw [← writes_syncAcTbl] at hinside
  constructor
  · intro h
    exact hinside.mp h.inside
  · intro hfit
    exact ⟨ebl_syncAcTbl size list s, hinside.mpr hfit⟩

end

/-! ## Both -/

/-- **Writing the rules**: the metering rules are where they should be and in force if and only if
    there are none for one of the directions and the entries fit; for the accounting rules it is
    enough that the entries fit. -/
theorem sync_tables_iff (size : RuleSize) :
    (∀ (list : List MtrPlcyNode) (s : MtrHw),
      Synced size.mtrPart (HasMtrRule list)
          (syncMtrTbl size list { s with policy := { s.policy with writes := [] } }).policy ↔
        ¬ (HasMtrRule list .preMtr ∧ HasMtrRule list .postMtr) ∧
          EntriesFit size.mtrPart (list.filterMap mtrEntryOf)) ∧
    (∀ (list : List AcPlcyNode) (s : PlcyHw AcType AcEntry),
      Synced size.acPart (HasAcRule list) (syncAcTbl size list { s with writes := [] }) ↔
        EntriesFit size.acPart (list.map acEntryOf)) :=
  ⟨fun list _ => mtrSynced_iff size list _ rfl, fun list _ => acSynced_iff size list _ rfl⟩

/-- The sizes in `frame_engine.h`. -/
def defaultSize : RuleSize := ⟨383, 32, 32, 32, 32⟩

/-- A rule for each direction. -/
def mtrBothWays : List MtrPlcyNode :=
  [⟨.preMtr, .macGroup, 1, 0, 0, 0, 0⟩, ⟨.postMtr, .macGroup, 1, 0, 0, 1, 0⟩]

/-- With a rule for each direction, the one for packets that go out is not in force. -/
theorem post_metering_left_disabled : ¬ ∀ (list : List MtrPlcyNode) (s : MtrHw),
      Synced defaultSize.mtrPart (HasMtrRule list)
        (syncMtrTbl defaultSize list { s with policy := { s.policy with writes := [] } }).policy := by
  intro h
  have henabled := (h mtrBothWays ⟨⟨fun _ => 0, fun _ => false, []⟩, fun _ => 0⟩).enabled .postMtr
  have hrule : HasMtrRule mtrBothWays .postMtr :=
    ⟨_, List.mem_cons_of_mem _ List.mem_cons_self, rfl⟩
  exact absurd (henabled.mpr hrule) (by decide)

end RalinkSdk.HwNat
