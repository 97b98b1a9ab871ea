import RalinkSdk.IgmpSnoop.Insertion

/-!
# Joins that take effect

A station that reports a group is to be listed in it.  The insertion gives up on a full
table before it looks the group up, and it returns `TRUE` whether or not a member entry was
free for the station.  So what becomes of a join depends on the counter, on the free list,
and on the entries that age out on the way and free their members.
-/

namespace RalinkSdk.IgmpSnoop

open Lib List Option

namespace Table

/-! ## What a join is for -/

def HasGroup (t : Table) (pGrpId : MacAddr) (dev : Nat) : Prop :=
  ∃ e, (t.content e).valid = true ∧ (t.content e).isGroup pGrpId dev = true

instance (t : Table) (pGrpId : MacAddr) (dev : Nat) : Decidable (t.HasGroup pGrpId dev) :=
  inferInstanceAs (Decidable (∃ e : Slot, (t.content e).valid = true ∧
    (t.content e).isGroup pGrpId dev = true))

/-- The station is listed in the group. -/
def Joined (t : Table) (pGrpId pMemberAddr : MacAddr) (dev : Nat) : Prop :=
  ∃ e, (t.content e).valid = true ∧ (t.content e).isGroup pGrpId dev = true ∧
    t.hasMember pMemberAddr walkFuel (t.content e).memberList.pHead = some true

instance (t : Table) (pGrpId pMemberAddr : MacAddr) (dev : Nat) :
    Decidable (t.Joined pGrpId pMemberAddr dev) :=
  inferInstanceAs (Decidable (∃ e : Slot, (t.content e).valid = true ∧
    (t.content e).isGroup pGrpId dev = true ∧
    t.hasMember pMemberAddr walkFuel (t.content e).memberList.pHead = some true))

/-- **A join takes effect**: when the call returns `TRUE` the station is listed in the group,
    and it does return `TRUE` when the group is there without the station and a member entry
    is free. -/
def JoinTakesEffect (t : Table) (pGrpId pMemberAddr : MacAddr) (dev : Nat)
    (type : MulticastFilterEntryType) (now : Readings) : Prop :=
  ∃ u b, t.multicastFilterTableInsertEntry pGrpId (some pMemberAddr) dev type now = some (u, b) ∧
    (b = true → u.Joined pGrpId pMemberAddr dev) ∧
    (t.HasGroup pGrpId dev → ¬ t.Joined pGrpId pMemberAddr dev →
      t.freeEntryList.pHead ≠ none → b = true)

/-! ## What a join needs -/

/-- The entries on a chain, by its links. -/
def chainSlots (t : Table) : Nat → Option Slot → List Slot
  | 0, _ => []
  | _ + 1, none => []
  | fuel + 1, some e => e :: t.chainSlots fuel (t.content e).pNext

/-- The entries that the lookup of an insertion finds stale. -/
def staleFor (t : Table) (pGrpId : MacAddr) (dev : Nat) (now : Readings) : List Slot :=
  t.staleBefore pGrpId dev now.lookup 0
    (t.chainSlots walkFuel (t.hash (multicastAddrHashIndex pGrpId)))

/-- Where a new group would go. -/
def vacancyFor (t : Table) (pGrpId : MacAddr) (dev : Nat) (now : Readings) : Option Slot :=
  (finRange _).find? fun i =>
    decide (i ∈ t.staleFor pGrpId dev now) || t.isVacancy now.search i

/-- The entries whose members an insertion frees before the station joins. -/
def sweptFor (t : Table) (pGrpId : MacAddr) (dev : Nat) (now : Readings) : List Slot :=
  t.staleFor pGrpId dev now ++
    if t.HasGroup pGrpId dev then [] else (t.vacancyFor pGrpId dev now).toList

/-- A member entry is free, or is the member of a group that ages out on the way. -/
def MemberFree (t : Table) (pGrpId : MacAddr) (dev : Nat) (now : Readings) : Prop :=
  t.freeEntryList.pHead ≠ none ∨
    ∃ e ∈ t.sweptFor pGrpId dev now, (t.content e).memberList.pHead ≠ none

/-- The station is in the group already; or the table is full, and then the group is not
    there or no member entry is free; or a member entry is there for the station. -/
def JoinReady (t : Table) (pGrpId pMemberAddr : MacAddr) (dev : Nat) (now : Readings) : Prop :=
  t.Joined pGrpId pMemberAddr dev ∨
    if maxLenOfMulticastFilterTable ≤ t.size.toNat then
      ¬ (t.HasGroup pGrpId dev ∧ t.freeEntryList.pHead ≠ none)
    else
      t.MemberFree pGrpId dev now

instance (t : Table) (pGrpId pMemberAddr : MacAddr) (dev : Nat) (now : Readings) :
    Decidable (t.JoinReady pGrpId pMemberAddr dev now) :=
  inferInstanceAs (Decidable (t.Joined pGrpId pMemberAddr dev ∨
    if maxLenOfMulticastFilterTable ≤ t.size.toNat then
      ¬ (t.HasGroup pGrpId dev ∧ t.freeEntryList.pHead ≠ none)
    else
      t.freeEntryList.pHead ≠ none ∨
        ∃ e ∈ t.sweptFor pGrpId dev now, (t.content e).memberList.pHead ≠ none))

end Table

variable {t u : Table} {v v' : View} {e : Slot} {addr a : MacAddr} {dev : Nat}

/-! ## Pointers and what they spell -/

theorem chainSlots_of_chain {l : List Slot} {fuel : Nat} {p : Option Slot}
    (hp : Chain t.next p l) (hfuel : l.length < fuel) : t.chainSlots fuel p = l := by
  induction l generalizing fuel p with
  | nil =>
    obtain ⟨fuel, rfl⟩ := Nat.exists_eq_add_one_of_ne_zero (Nat.ne_zero_of_lt hfuel)
    obtain rfl : p = none := hp
    rfl
  | cons e l ih =>
    obtain ⟨fuel, rfl⟩ := Nat.exists_eq_add_one_of_ne_zero (Nat.ne_zero_of_lt hfuel)
    obtain ⟨rfl, hrest⟩ := hp
    exact congrArg (e :: ·) (ih hrest (by simpa using hfuel))

theorem Table.Ok.staleFor_eq (hok : t.Ok v) (addr : MacAddr) (dev : Nat) (now : Table.Readings) :
    t.staleFor addr dev now =
      t.staleBefore addr dev now.lookup 0 (v.chain (multicastAddrHashIndex addr)) := by
  rw [Table.staleFor, chainSlots_of_chain (hok.directory.linked _) (hok.directory.length_lt _)]

theorem Table.Ok.header_none_iff (hok : t.Ok v) (r : ListRef) :
    (t.header r).pHead = none ↔ v.lists r = [] := by
  rw [(hok.pool.isList r).head, head?_eq_none_iff]

theorem Table.Ok.joined_iff (hok : t.Ok v) : t.Joined addr a dev ↔ ∃ e, (t.content e).valid = true ∧
      (t.content e).isGroup addr dev = true ∧ a ∈ t.stations v.lists e := by
  unfold Table.Joined
  simp only [hasMember_spec hok.pool, some.injEq, decide_eq_true_eq]

theorem Table.Ok.joined_iff_of_group (hok : t.Ok v) (he : (t.content e).valid = true)
    (hgroup : (t.content e).isGroup addr dev = true) :
    t.Joined addr a dev ↔ a ∈ t.stations v.lists e := by
  rw [hok.joined_iff]
  constructor
  · rintro ⟨e', he', hgroup', ha⟩
    rw [Entry.isGroup_iff] at hgroup hgroup'
    have heq : e' = e := hok.directory.key e' e he' he (hgroup'.2.trans hgroup.2.symm)
      (hgroup'.1.trans hgroup.1.symm)
    rw [heq] at ha
    exact ha
  · intro ha
    exact ⟨e, he, hgroup, ha⟩

/-! ## Members that are freed -/

theorem foldl_released_other {gone : List Slot} (lists : Lists) (he : e ∉ gone) :
    gone.foldl Lists.released lists (.members e) = lists (.members e) := by
  induction gone generalizing lists with
  | nil => rfl
  | cons g gone ih =>
    rw [mem_cons, not_or] at he
    rw [foldl_cons, ih _ he.2, Lists.released_other he.1]

theorem foldl_released_free_iff {gone : List Slot} (lists : Lists) :
    gone.foldl Lists.released lists .free = [] ↔
      lists .free = [] ∧ ∀ e ∈ gone, lists (.members e) = [] := by
  induction gone generalizing lists with
  | nil => simp
  | cons g gone ih =>
    rw [foldl_cons, ih, Lists.released_free, append_eq_nil_iff, and_assoc]
    apply and_congr_right
    intro _
    constructor
    · rintro ⟨hg, hrest⟩ e he
      rw [Lists.released_of_nil hg] at hrest
      rcases mem_cons.mp he with rfl | hmem
      · exact hg
      · exact hrest e hmem
    · intro hall
      have hg := hall g mem_cons_self
      rw [Lists.released_of_nil hg]
      exact ⟨hg, fun e he => hall e (mem_cons_of_mem _ he)⟩

/-! ## The lookup of an insertion -/

theorem hasGroup_iff_of_lookup {r : Option Slot} (hoku : u.Ok v') (hfew : Fewer t u)
    (hfound : Found (multicastAddrHashIndex addr) addr dev u v' r) {m : List Slot}
    {times : Nat → BitVec 32} (hswept : Swept t v (t.staleBefore addr dev times 0 m) u v' r) :
    t.HasGroup addr dev ↔ r ≠ none := by
  constructor
  · rintro ⟨e, he, hgroup⟩ rfl
    -- the group is not stale, so the lookup has kept its entry
    have hnot : e ∉ t.staleBefore addr dev times 0 m := by
      intro hmem
      rw [(mem_staleBefore hmem).2] at hgroup
      exact absurd hgroup (by simp)
    have hkept := hswept.kept e hnot (by simp)
    have hvalid : (u.content e).valid = true := by
      rw [← Entry.valid_bare, hkept, Entry.valid_bare]
      exact he
    have habsent := hfound.no_entry hoku hvalid
    rw [← Entry.isGroup_bare, hkept, Entry.isGroup_bare, hgroup] at habsent
    exact absurd habsent (by simp)
  · intro hr
    obtain ⟨e, rfl⟩ := ne_none_iff_exists'.mp hr
    obtain ⟨hvalid, hgroup⟩ := hfound.present e rfl
    exact ⟨e, hfew.valid e hvalid, (hfew.isGroup hvalid).symm.trans hgroup⟩

theorem stations_of_lookup {gone : List Slot} (hswept : Swept t v gone u v' (some e))
    (he : (u.content e).valid = true) : u.stations v'.lists e = t.stations v.lists e := by
  have hnot : e ∉ gone := by
    intro hmem
    rw [hswept.cleared e hmem] at he
    exact absurd he (by simp)
  unfold Table.stations
  rw [hswept.lists, hswept.poolAddr, foldl_released_other _ hnot]

theorem vacancyFor_of_lookup {now : Table.Readings}
    (hswept : Swept t v (t.staleFor addr dev now) u v' none) :
    t.vacancyFor addr dev now = (finRange _).find? (u.isVacancy now.search) := by
  have hsame : ∀ i, (decide (i ∈ t.staleFor addr dev now) || t.isVacancy now.search i) =
      u.isVacancy now.search i := by
    intro i
    by_cases hi : i ∈ t.staleFor addr dev now
    · have hvalid := hswept.cleared i hi
      simp [hi, Table.isVacancy, hvalid]
    · rw [isVacancy_congr (hswept.kept i hi (by simp))]
      simp [hi]
  unfold Table.vacancyFor
  exact congrArg ((finRange _).find? ·) (funext hsame)

/-! ## Joins -/

theorem Table.Ok.memberFree_iff (hok : t.Ok v) (now : Table.Readings) : t.MemberFree addr dev now ↔
      (t.sweptFor addr dev now).foldl Lists.released v.lists .free ≠ [] := by
  have hfree := hok.header_none_iff .free
  have hmembers : ∀ e, (t.content e).memberList.pHead = none ↔ v.lists (.members e) = [] :=
    fun e => hok.header_none_iff (.members e)
  rw [ne_eq, foldl_released_free_iff, ← hfree]
  simp only [← hmembers]
  unfold Table.MemberFree
  simp only [not_and_or, not_forall, exists_prop]
  rfl

theorem mem_joining_iff {free : List Member} : a ∈ joining free (some a) ↔ free ≠ [] := by
  by_cases hfree : free = []
  · simp [joining, hfree]
  · simp [joining, hfree]

theorem joinTakesEffect_full (hfull : maxLenOfMulticastFilterTable ≤ t.size.toNat)
    (type : MulticastFilterEntryType) (now : Table.Readings) :
    t.JoinTakesEffect addr a dev type now ↔ t.JoinReady addr a dev now := by
  have hrun : t.multicastFilterTableInsertEntry addr (some a) dev type now = some (t, false) :=
    if_pos hfull
  unfold Table.JoinReady
  rw [if_pos hfull]
  constructor
  · rintro ⟨u, b, hrun', -, htrue⟩
    rw [hrun] at hrun'
    obtain ⟨rfl, rfl⟩ := Prod.mk.inj (some.inj hrun')
    by_cases hjoined : t.Joined addr a dev
    · exact .inl hjoined
    · right
      rintro ⟨hgroup, hfree⟩
      exact absurd (htrue hgroup hjoined hfree) (by simp)
  · intro hready
    refine ⟨t, false, hrun, by simp, ?_⟩
    intro hgroup hjoined hfree
    exact absurd ⟨hgroup, hfree⟩ (hready.resolve_left hjoined)

/-- **What a join comes to**, in a table that keeps the invariant. -/
theorem Table.Ok.joins_iff (hok : t.Ok v) (addr a : MacAddr) (dev : Nat)
    (type : MulticastFilterEntryType) (now : Table.Readings) :
    t.JoinTakesEffect addr a dev type now ↔ t.JoinReady addr a dev now := by
  by_cases hfull : maxLenOfMulticastFilterTable ≤ t.size.toNat
  · exact joinTakesEffect_full hfull type now
  obtain ⟨u, r, v', hrun, hoku, hfew, hfound, hswept⟩ := hok.lookup addr dev now.lookup
  have hsize : u.size.toNat < 64 := Nat.lt_of_le_of_lt hfew.size (Nat.lt_of_not_le hfull)
  have hgroup_iff := hasGroup_iff_of_lookup hoku hfew hfound hswept
  rw [← hok.staleFor_eq] at hswept
  unfold Table.JoinReady
  rw [if_neg hfull, hok.memberFree_iff, Table.sweptFor, foldl_append, ← hswept.lists]
  cases r with
  | none =>
    -- a new group: it goes to the vacancy, and the station with it
    have hno : ¬ t.HasGroup addr dev := by simpa using hgroup_iff.not
    have hnotin : ¬ t.Joined addr a dev := by
      rintro ⟨e, he, hgroup, -⟩
      exact hno ⟨e, he, hgroup⟩
    obtain ⟨w, v'', i, hrun', hokw, hfind, hivalid, higroup, hstations⟩ :=
      hoku.insertGroup hsize addr (some a) dev type now fun e he => hfound.no_entry hoku he
    have hcall : t.multicastFilterTableInsertEntry addr (some a) dev type now = some (w, true) := by
      simp [Table.multicastFilterTableInsertEntry, hfull, hrun, hrun']
    have hjoined : w.Joined addr a dev ↔ v'.lists.released i .free ≠ [] := by
      rw [hokw.joined_iff_of_group hivalid higroup, hstations, mem_joining_iff]
    rw [if_neg hno, vacancyFor_of_lookup hswept, hfind, toList_some, foldl_cons,
      foldl_nil, ← hjoined]
    constructor
    · rintro ⟨w', b, hcall', hlisted, -⟩
      rw [hcall] at hcall'
      obtain ⟨rfl, rfl⟩ := Prod.mk.inj (some.inj hcall')
      exact .inr (hlisted rfl)
    · intro hready
      exact ⟨w, true, hcall, fun _ => hready.resolve_left hnotin, fun _ _ _ => rfl⟩
  | some e =>
    obtain ⟨hevalid, hegroup⟩ := hfound.present e rfl
    have hgroup : t.HasGroup addr dev := hgroup_iff.mpr (by simp)
    have hsame := stations_of_lookup hswept hevalid
    have hjoined : t.Joined addr a dev ↔ a ∈ u.stations v'.lists e := by
      rw [hsame]
      exact hok.joined_iff_of_group (hfew.valid e hevalid)
        ((hfew.isGroup hevalid).symm.trans hegroup)
    have hwalk := hasMember_spec hoku.pool e a
    rw [if_pos hgroup, foldl_nil]
    by_cases ha : a ∈ u.stations v'.lists e
    · -- the station is in the group already
      have hcall : t.multicastFilterTableInsertEntry addr (some a) dev type now =
          some (u, false) := by
        simp [Table.multicastFilterTableInsertEntry, hfull, hrun, hwalk, ha]
      exact iff_of_true
        ⟨u, false, hcall, by simp, fun _ hnot _ => absurd (hjoined.mpr ha) hnot⟩
        (.inl (hjoined.mpr ha))
    · have hcall : t.multicastFilterTableInsertEntry addr (some a) dev type now =
          some (u.insertIgmpMember e a, true) := by
        simp [Table.multicastFilterTableInsertEntry, hfull, hrun, hwalk, ha]
      obtain ⟨v'', hokw, hstations⟩ := hoku.insertMember hevalid a ha
      have hsg := (insertIgmpMember_spec hoku.pool e a).1
      have hlisted : (u.insertIgmpMember e a).Joined addr a dev ↔ v'.lists .free ≠ [] := by
        rw [hokw.joined_iff_of_group ((hsg.valid e).trans hevalid)
            ((hsg.fewer.isGroup ((hsg.valid e).trans hevalid)).trans hegroup),
          hstations, mem_append, mem_joining_iff]
        exact or_iff_right ha
      rw [← hlisted]
      constructor
      · rintro ⟨w', b, hcall', hin, -⟩
        rw [hcall] at hcall'
        obtain ⟨rfl, rfl⟩ := Prod.mk.inj (some.inj hcall')
        exact .inr (hin rfl)
      · intro hready
        exact ⟨_, true, hcall, fun _ => hready.resolve_left (fun h => ha (hjoined.mp h)),
          fun _ _ _ => rfl⟩

/-- **Joins that take effect**: in every table that calls can lead to, at any times, a join
    does what it is for exactly when the table is ready for it. -/
theorem joinTakesEffect_iff (calls : List Call) (t : Table)
    (hrun : calls.foldlM Table.call multicastFilterTableInit = some t) (addr a : MacAddr)
    (dev : Nat) (type : MulticastFilterEntryType) (now : Table.Readings) :
    t.JoinTakesEffect addr a dev type now ↔ t.JoinReady addr a dev now := by
  obtain ⟨u, hrun', v, hok⟩ := calls_ok calls
  rw [hrun] at hrun'
  obtain rfl := Option.some.inj hrun'
  exact hok.joins_iff addr a dev type now

/-- The clock stands still. -/
def Table.Readings.zero : Table.Readings := ⟨fun _ => 0, fun _ => 0, 0⟩

def groupAddr (n : Nat) : MacAddr := ![0x01, 0x00, 0x5e, 0x00, 0x00, BitVec.ofNat 8 n]

def stationAddr (n : Nat) : MacAddr := ![0x02, 0x00, 0x00, 0x00, 0x00, BitVec.ofNat 8 n]

/-- The first station of a new table. -/
theorem joinTakesEffect_first_station :
    multicastFilterTableInit.JoinTakesEffect (groupAddr 1) (stationAddr 1) 0
      .mcatFilterDynamic .zero :=
  (joinTakesEffect_iff [] _ rfl _ _ _ _ _).mpr (by decide +kernel)

/-- Static groups without members, as many as the table holds. -/
def sixtyFourGroups : List Call :=
  (range 64).map fun n => .insertEntry (groupAddr n) none 0 .mcatFilterStatic .zero

/-- A station cannot join a group of a full table, though every member entry is free. -/
theorem not_joinTakesEffect_full_table : ¬ ∀ (calls : List Call) (t : Table),
      calls.foldlM Table.call multicastFilterTableInit = some t →
      ∀ (addr a : MacAddr) (dev : Nat) (type : MulticastFilterEntryType)
        (now : Table.Readings), t.JoinTakesEffect addr a dev type now := by
  intro hall
  have hany : (sixtyFourGroups.foldlM Table.call multicastFilterTableInit).any (fun t =>
      decide (maxLenOfMulticastFilterTable ≤ t.size.toNat ∧
        ¬ t.JoinReady (groupAddr 0) (stationAddr 1) 0 .zero)) = true := by
    decide +kernel
  obtain ⟨t, hrun, hcond⟩ := Option.any_eq_true _ _ |>.mp hany
  obtain ⟨hfull, hready⟩ := of_decide_eq_true hcond
  exact hready ((joinTakesEffect_full hfull .mcatFilterDynamic .zero).mp
    (hall sixtyFourGroups t hrun _ _ _ _ _))

end RalinkSdk.IgmpSnoop
