import RalinkSdk.IgmpSnoop.Table

/-!
# Member entries

The operations on member lists move entries of the pool between the list of a group and
`freeEntryList`, and leave everything else of the table as it is.  `Table.PoolOk` says
that the lists under the headers of the table share the pool; `SameGroups` that two tables
have the same groups on the same chains.
-/

namespace RalinkSdk.IgmpSnoop

open Lib Option Function Nat List

/-- What the lists of a table hold. -/
abbrev Lists := ListRef → List Member

variable {t u w : Table} {lists lists' lists'' : Lists} {e : Slot} {m : Member} {r : ListRef}

def Table.PoolOk (t : Table) (lists : Lists) (loose : Option Member) : Prop :=
  Pool t.poolNext t.header lists loose

/-- The stations in the group of an entry. -/
def Table.stations (t : Table) (lists : Lists) (e : Slot) : List MacAddr :=
  (lists (.members e)).map t.poolAddr

structure SameGroups (t u : Table) : Prop where
  size : u.size = t.size
  hash : u.hash = t.hash
  valid : ∀ e, (u.content e).valid = (t.content e).valid
  netDev : ∀ e, (u.content e).netDev = (t.content e).netDev
  addr : ∀ e, (u.content e).addr = (t.content e).addr
  pNext : ∀ e, (u.content e).pNext = (t.content e).pNext

theorem SameGroups.refl (t : Table) : SameGroups t t :=
  ⟨rfl, rfl, fun _ => rfl, fun _ => rfl, fun _ => rfl, fun _ => rfl⟩

theorem SameGroups.trans (h : SameGroups t u) (h' : SameGroups u w) : SameGroups t w where
  size := h'.size.trans h.size
  hash := h'.hash.trans h.hash
  valid e := (h'.valid e).trans (h.valid e)
  netDev e := (h'.netDev e).trans (h.netDev e)
  addr e := (h'.addr e).trans (h.addr e)
  pNext e := (h'.pNext e).trans (h.pNext e)

/-! ## Headers and links -/

@[simp] theorem Table.content_setEntry (t : Table) (e : Slot) (x : Entry) :
    (t.setEntry e x).content = update t.content e x := rfl

theorem Table.field_setEntry {α : Type} (f : Entry → α) {x : Entry}
    (hf : f x = f (t.content e)) (e' : Slot) :
    f ((t.setEntry e x).content e') = f (t.content e') := by
  by_cases he : e' = e
  · subst he
    simpa using hf
  · simp [he]

theorem Table.header_setEntry {x : Entry} (hx : x.memberList = (t.content e).memberList) :
    (t.setEntry e x).header = t.header := by
  funext r
  cases r with
  | free => rfl
  | members e' => exact Table.field_setEntry Entry.memberList hx e'

section

variable (t : Table) (r : ListRef) (h : ListHeader Member)

include h

@[simp] theorem Table.header_setHeader :
    (t.setHeader r h).header = update t.header r h := by
  funext r'
  cases r with
  | free => cases r' <;> simp [setHeader, header]
  | members e =>
    cases r' with
    | free => simp [setHeader, header, setEntry]
    | members e' =>
      by_cases he : e' = e
      · subst he
        simp [setHeader, header]
      · simp [setHeader, header, he]

@[simp] theorem Table.poolNext_setHeader : (t.setHeader r h).poolNext = t.poolNext := by
  cases r <;> rfl

@[simp] theorem Table.poolAddr_setHeader : (t.setHeader r h).poolAddr = t.poolAddr := by
  cases r <;> rfl

end

section

variable (t : Table) (next : Member → Option Member)

@[simp] theorem Table.poolNext_setPoolNext :
    (t.setPoolNext next).poolNext = next := rfl

@[simp] theorem Table.poolAddr_setPoolNext :
    (t.setPoolNext next).poolAddr = t.poolAddr := rfl

@[simp] theorem Table.header_setPoolNext : (t.setPoolNext next).header = t.header := by
  funext r
  cases r <;> rfl

end

theorem SameGroups.setHeader (t : Table) (r : ListRef) (h : ListHeader Member) :
    SameGroups t (t.setHeader r h) := by
  cases r with
  | free => exact ⟨rfl, rfl, fun _ => rfl, fun _ => rfl, fun _ => rfl, fun _ => rfl⟩
  | members e =>
    -- the entry written differs from the old one in its list header only
    exact ⟨rfl, rfl, Table.field_setEntry Entry.valid rfl, Table.field_setEntry Entry.netDev rfl,
      Table.field_setEntry Entry.addr rfl, Table.field_setEntry Entry.pNext rfl⟩

theorem SameGroups.relist (t : Table) (next : Member → Option Member) (r : ListRef)
    (h : ListHeader Member) : SameGroups t ((t.setPoolNext next).setHeader r h) :=
  .trans (u := t.setPoolNext next)
    ⟨rfl, rfl, fun _ => rfl, fun _ => rfl, fun _ => rfl, fun _ => rfl⟩
    (.setHeader _ r h)

/-! ## Moving entries -/

theorem Table.PoolOk.length_lt {loose : Option Member} (hp : t.PoolOk lists loose)
    (r : ListRef) : (lists r).length < Table.walkFuel := by
  have hcard := (hp.isList r).nodup.length_le_card
  rw [Fintype.card_fin] at hcard
  exact lt_succ_of_le hcard

theorem Table.PoolOk.insertTailList (hp : t.PoolOk lists (some m)) (r : ListRef) :
    (t.insertTailList r m).PoolOk (update lists r (lists r ++ [m])) none := by
  have hmoved := hp.insertTail r
  simpa [Table.PoolOk, Table.insertTailList] using hmoved

theorem SameGroups.insertTailList (t : Table) (r : ListRef) (m : Member) :
    SameGroups t (t.insertTailList r m) :=
  .relist t _ r _

theorem Table.PoolOk.delEntryList {l rest : List Member} (hp : t.PoolOk lists none)
    (hr : lists r = l ++ m :: rest) :
    ∃ u, t.delEntryList r m = some u ∧ SameGroups t u ∧ u.poolAddr = t.poolAddr ∧
      (∀ i, i ∉ l → u.poolNext i = t.poolNext i) ∧
      u.PoolOk (update lists r (l ++ rest)) (some m) := by
  have hfuel : l.length ≤ Table.walkFuel := by
    have hlen := hp.length_lt r
    rw [hr, length_append] at hlen
    omega
  obtain ⟨next', h', hrun, hlinks, hpool⟩ := Pool.delEntry hp hr hfuel
  refine ⟨(t.setPoolNext next').setHeader r h', ?_, .relist t next' r h', ?_, ?_, ?_⟩
  · simp [Table.delEntryList, hrun]
  · simp
  · simpa using hlinks
  · simpa [Table.PoolOk] using hpool

theorem Table.PoolOk.release {l rest : List Member} (hp : t.PoolOk lists none)
    (he : lists (.members e) = l ++ m :: rest) : ∃ u, t.delEntryList (.members e) m = some u ∧
      (l = [] → u.poolNext m = t.poolNext m) ∧ SameGroups t (u.freeGrpMemberEntry m) ∧
      (u.freeGrpMemberEntry m).poolAddr = t.poolAddr ∧
      (u.freeGrpMemberEntry m).PoolOk
        (update (update lists (.members e) (l ++ rest)) .free
          (lists .free ++ [m])) none := by
  obtain ⟨u, hrun, hsame, haddr, hlinks, hpool⟩ := hp.delEntryList he
  -- out of the group first, then onto the free list
  have hfree := hpool.insertTailList .free
  refine ⟨u, hrun, ?_, hsame.trans (.insertTailList u .free m), ?_, ?_⟩
  · rintro rfl
    exact hlinks m (by simp)
  · simpa [Table.freeGrpMemberEntry, Table.insertTailList] using haddr
  · simpa [Table.freeGrpMemberEntry] using hfree

/-! ## Stations that leave -/

/-- The groups have lost stations at most. -/
structure Shrunk (t : Table) (lists : Lists) (u : Table) (lists' : Lists) : Prop where
  same : SameGroups t u
  pool : u.PoolOk lists' none
  addr : u.poolAddr = t.poolAddr
  sub : ∀ e, (lists' (.members e)).Sublist (lists (.members e))

theorem Shrunk.refl (hp : t.PoolOk lists none) : Shrunk t lists t lists :=
  ⟨.refl t, hp, rfl, fun _ => List.Sublist.refl _⟩

theorem Shrunk.trans (h : Shrunk t lists u lists') (h' : Shrunk u lists' w lists'') :
    Shrunk t lists w lists'' :=
  ⟨h.same.trans h'.same, h'.pool, h'.addr.trans h.addr, fun e => (h'.sub e).trans (h.sub e)⟩

theorem Shrunk.stations (h : Shrunk t lists u lists') (e : Slot) :
    (u.stations lists' e).Sublist (t.stations lists e) := by
  unfold Table.stations
  rw [h.addr]
  exact (h.sub e).map _

/-- The lists after a station left: its member entry is the last of the free list. -/
def Lists.leave (lists : Lists) (e : Slot) (rest : List Member) (m : Member) : Lists :=
  update (update lists (.members e) rest) .free (lists .free ++ [m])

/-- The lists after all stations left the group of an entry. -/
def Lists.released (lists : Lists) (e : Slot) : Lists
  | .free => lists .free ++ lists (.members e)
  | .members e' => if e' = e then [] else lists (.members e')

@[simp] theorem Lists.released_free (lists : Lists) (e : Slot) :
    lists.released e .free = lists .free ++ lists (.members e) := rfl

@[simp] theorem Lists.released_self (lists : Lists) (e : Slot) :
    lists.released e (.members e) = [] := if_pos rfl

theorem Lists.released_other {e' : Slot} (he : e' ≠ e) :
    lists.released e (.members e') = lists (.members e') := if_neg he

theorem Lists.released_of_nil (he : lists (.members e) = []) : lists.released e = lists := by
  funext r
  cases r with
  | free => simp [he]
  | members e' =>
    by_cases hee : e' = e
    · subst hee
      rw [released_self, he]
    · exact released_other hee

theorem Lists.released_leave {l : List Member} (he : lists (.members e) = m :: l) :
    (lists.leave e l m).released e = lists.released e := by
  funext r
  cases r with
  | free => simp [leave, he]
  | members e' =>
    by_cases hee : e' = e
    · subst hee
      rw [released_self, released_self]
    · rw [released_other hee, released_other hee]
      simp [leave, hee]

theorem Shrunk.release {l rest : List Member} (hp : t.PoolOk lists none)
    (he : lists (.members e) = l ++ m :: rest) : ∃ u, t.delEntryList (.members e) m = some u ∧
      (l = [] → u.poolNext m = t.poolNext m) ∧
      Shrunk t lists (u.freeGrpMemberEntry m) (lists.leave e (l ++ rest) m) := by
  obtain ⟨u, hrun, hlink, hsame, haddr, hpool⟩ := hp.release he
  refine ⟨u, hrun, hlink, ⟨hsame, hpool, haddr, ?_⟩⟩
  intro e'
  by_cases hee : e' = e
  · subst hee
    simp [Lists.leave, he]
  · simp [Lists.leave, hee]

/-- **`DeleteIgmpMember`** takes at most one station off the group. -/
theorem deleteIgmpMember_spec (hp : t.PoolOk lists none) (e : Slot) (a : MacAddr) :
    ∃ u lists', t.deleteIgmpMember e a = some u ∧ Shrunk t lists u lists' := by
  -- the scan, with the entries behind it in `l` and those before it in `rest`
  have hscan : ∀ (rest l : List Member) (fuel : Nat), lists (.members e) = l ++ rest →
      Chain t.poolNext rest.head? rest → rest.length < fuel →
      ∃ u lists', Table.deleteIgmpMemberScan e a fuel t rest.head? = some u ∧
        Shrunk t lists u lists' := by
    intro rest
    induction rest with
    | nil =>
      intro l fuel _ _ hfuel
      obtain ⟨fuel, rfl⟩ := exists_eq_add_one_of_ne_zero (Nat.ne_zero_of_lt hfuel)
      exact ⟨t, lists, rfl, Shrunk.refl hp⟩
    | cons m rest ih =>
      intro l fuel hlist hchain hfuel
      obtain ⟨fuel, rfl⟩ := exists_eq_add_one_of_ne_zero (Nat.ne_zero_of_lt hfuel)
      by_cases ha : a = t.poolAddr m
      · obtain ⟨u, hrun, -, hshrunk⟩ := Shrunk.release hp hlist
        refine ⟨u.freeGrpMemberEntry m, _, ?_, hshrunk⟩
        simp [Table.deleteIgmpMemberScan, ha, hrun]
      · have hnext : t.poolNext m = rest.head? := Chain.head hchain.2
        obtain ⟨u, lists', hrun, hshrunk⟩ :=
          ih (l ++ [m]) fuel (by simpa using hlist) (hnext ▸ hchain.2)
            (by simpa using hfuel)
        refine ⟨u, lists', ?_, hshrunk⟩
        simpa [Table.deleteIgmpMemberScan, ha, hnext] using hrun
  have hlist := hp.isList (.members e)
  have hhead : (t.content e).memberList.pHead = (lists (.members e)).head? := hlist.head
  unfold Table.deleteIgmpMember
  rw [hhead]
  exact hscan _ [] _ rfl (hhead ▸ hlist.chain) (hp.length_lt _)

/-- **`DeleteIgmpMemberList`** takes all stations off the group. -/
theorem deleteIgmpMemberList_spec (hp : t.PoolOk lists none) (e : Slot) :
    ∃ u, t.deleteIgmpMemberList e = some u ∧ Shrunk t lists u (lists.released e) := by
  -- each turn of the loop releases the entry at the head
  have hloop : ∀ (l : List Member) (fuel : Nat) (t : Table) (lists : Lists),
      t.PoolOk lists none → lists (.members e) = l → l.length < fuel →
      ∃ u, Table.deleteIgmpMemberListLoop e fuel t l.head? = some u ∧
        Shrunk t lists u (lists.released e) := by
    intro l
    induction l with
    | nil =>
      intro fuel t lists hp hlist hfuel
      obtain ⟨fuel, rfl⟩ := exists_eq_add_one_of_ne_zero (Nat.ne_zero_of_lt hfuel)
      refine ⟨t, rfl, ?_⟩
      rw [Lists.released_of_nil hlist]
      exact Shrunk.refl hp
    | cons m l ih =>
      intro fuel t lists hp hlist hfuel
      obtain ⟨fuel, rfl⟩ := exists_eq_add_one_of_ne_zero (Nat.ne_zero_of_lt hfuel)
      have hchain := (hp.isList (.members e)).chain
      rw [hlist] at hchain
      have hnext : t.poolNext m = l.head? := Chain.head hchain.2
      obtain ⟨u, hrun, hlink, hshrunk⟩ := Shrunk.release (l := []) hp hlist
      obtain ⟨w, hrun', hshrunk'⟩ :=
        ih fuel _ _ hshrunk.pool (by simp [Lists.leave]) (by simpa using hfuel)
      rw [nil_append, Lists.released_leave hlist] at hshrunk'
      refine ⟨w, ?_, hshrunk.trans hshrunk'⟩
      simpa [Table.deleteIgmpMemberListLoop, hrun, hlink rfl, hnext] using hrun'
  have hhead : (t.content e).memberList.pHead = (lists (.members e)).head? :=
    (hp.isList (.members e)).head
  unfold Table.deleteIgmpMemberList
  rw [hhead]
  cases hlist : lists (.members e) with
  | nil =>
    refine ⟨t, rfl, ?_⟩
    rw [Lists.released_of_nil hlist]
    exact Shrunk.refl hp
  | cons m l =>
    obtain ⟨u, hrun, hshrunk⟩ :=
      hloop (m :: l) Table.walkFuel t lists hp hlist (hlist ▸ hp.length_lt _)
    refine ⟨u.setHeader (.members e) initList, ?_, ?_⟩
    · have hrun' : Table.deleteIgmpMemberListLoop e Table.walkFuel t (some m) = some u := hrun
      simp [hrun']
    · refine ⟨hshrunk.same.trans (.setHeader u _ _), ?_, ?_, hshrunk.sub⟩
      · refine ⟨?_, hshrunk.pool.disjoint, hshrunk.pool.loose⟩
        intro r
        by_cases hr : r = .members e
        · subst hr
          simpa using isList_initList
        · simpa [hr] using hshrunk.pool.isList r
      · simpa using hshrunk.addr

theorem deleteIgmpMemberList_content (hrun : t.deleteIgmpMemberList e = some u) {e' : Slot}
    (he : e' ≠ e) : u.content e' = t.content e' := by
  have hloop : ∀ (fuel : Nat) (t : Table) (p : Option Member) (u : Table),
      Table.deleteIgmpMemberListLoop e fuel t p = some u → u.content e' = t.content e' := by
    intro fuel
    induction fuel with
    | zero =>
      intro t p u hrun
      cases hrun
    | succ fuel ih =>
      intro t p u hrun
      cases p with
      | none =>
        obtain rfl : t = u := by simpa [Table.deleteIgmpMemberListLoop] using hrun
        rfl
      | some m =>
        simp only [Table.deleteIgmpMemberListLoop, Table.delEntryList, bind_eq_bind,
          bind_eq_some_iff, some.injEq] at hrun
        obtain ⟨w, ⟨out, -, rfl⟩, hrest⟩ := hrun
        rw [ih _ _ _ hrest]
        -- the entry's own header is the one that is written
        show (update t.content e _) e' = _
        rw [update_of_ne he]
  unfold Table.deleteIgmpMemberList at hrun
  split at hrun
  · rw [← some.inj hrun]
  · simp only [bind_eq_bind, bind_eq_some_iff, some.injEq] at hrun
    obtain ⟨w, hrest, rfl⟩ := hrun
    show (update w.content e _) e' = _
    rw [update_of_ne he]
    exact hloop _ _ _ _ hrest

/-! ## Stations that join -/

/-- **`InsertIgmpMember`**: the station goes behind the others of the group, or the pool is
    used up. -/
theorem insertIgmpMember_spec (hp : t.PoolOk lists none) (e : Slot) (a : MacAddr) :
    SameGroups t (t.insertIgmpMember e a) ∧ ∃ lists',
      (t.insertIgmpMember e a).PoolOk lists' none ∧
      (∀ e', e' ≠ e → (t.insertIgmpMember e a).stations lists' e' = t.stations lists e') ∧
      (t.insertIgmpMember e a).stations lists' e =
        t.stations lists e ++ if lists .free = [] then [] else [a] := by
  cases hfree : lists .free with
  | nil =>
    -- the pool is used up, and nothing happens
    have hhead : t.freeEntryList.pHead = none := by
      have hh := (hp.isList .free).head
      rw [hfree] at hh
      exact hh
    have hsame : t.insertIgmpMember e a = t := by
      simp [Table.insertIgmpMember, Table.allocaGrpMemberEntry, removeHeadList, hhead,
        Table.setHeader]
    rw [hsame]
    exact ⟨.refl t, lists, hp, fun _ _ => rfl, by simp⟩
  | cons m rest =>
    have hlist := hp.isList .free
    rw [hfree] at hlist
    have hremove : removeHeadList t.poolNext t.freeEntryList = _ := hlist.removeHead
    have hloose := hp.removeHead hfree
    -- the entry is taken off the free list, cleared, and put behind the group's others
    let u : Table := { t.setHeader .free (t.freeEntryList.dropHead (t.poolNext m)) with
      poolNext := update t.poolNext m none
      poolAddr := update t.poolAddr m a }
    have hu : t.insertIgmpMember e a = u.insertTailList (.members e) m := by
      simp [Table.insertIgmpMember, Table.allocaGrpMemberEntry, hremove, u]
      rfl
    have hheader : u.header =
        update t.header .free ((t.header .free).dropHead (t.poolNext m)) := by
      rw [← Table.header_setHeader]
      funext r
      cases r <;> rfl
    have hupool : u.PoolOk (update lists .free rest) (some m) := by
      unfold Table.PoolOk
      rw [hheader]
      exact hloose.relink_loose none
    have hdone := hupool.insertTailList (.members e)
    have hsame : SameGroups t u :=
      ⟨rfl, rfl, fun _ => rfl, fun _ => rfl, fun _ => rfl, fun _ => rfl⟩
    have haddr : (u.insertTailList (.members e) m).poolAddr = update t.poolAddr m a := by
      simp [Table.insertTailList, u]
    -- the new address is that of an entry no group had
    have hmap : ∀ e', (lists (.members e')).map (update t.poolAddr m a) =
        t.stations lists e' := by
      intro e'
      apply map_congr_left
      intro i hi
      have hne : i ≠ m := by
        rintro rfl
        have hfr : i ∈ lists .free := by simp [hfree]
        exact absurd (hp.disjoint i _ _ hi hfr) (by simp)
      simp [hne]
    rw [hu]
    refine ⟨hsame.trans (.insertTailList u _ m), _, hdone, ?_, ?_⟩
    · intro e' he'
      unfold Table.stations
      rw [haddr, update_of_ne (by simpa using he'), update_of_ne (by simp)]
      exact hmap e'
    · unfold Table.stations
      rw [haddr, update_self, map_append, update_of_ne (by simp), hmap e]
      simp [Table.stations]

/-- **The walk along the members** finds a station exactly when it is in the group. -/
theorem hasMember_spec (hp : t.PoolOk lists none) (e : Slot) (a : MacAddr) :
    t.hasMember a Table.walkFuel (t.content e).memberList.pHead =
      some (decide (a ∈ t.stations lists e)) := by
  -- the walk along any chain of member entries
  have hscan : ∀ (l : List Member) (fuel : Nat) (p : Option Member),
      Chain t.poolNext p l → l.length < fuel →
      t.hasMember a fuel p = some (decide (a ∈ l.map t.poolAddr)) := by
    intro l
    induction l with
    | nil =>
      intro fuel p hp hfuel
      obtain ⟨fuel, rfl⟩ := exists_eq_add_one_of_ne_zero (Nat.ne_zero_of_lt hfuel)
      obtain rfl : p = none := hp
      rfl
    | cons m l ih =>
      intro fuel p hp hfuel
      obtain ⟨fuel, rfl⟩ := exists_eq_add_one_of_ne_zero (Nat.ne_zero_of_lt hfuel)
      obtain ⟨rfl, hrest⟩ := hp
      by_cases ha : a = t.poolAddr m
      · simp [Table.hasMember, ha]
      · rw [Table.hasMember, if_neg ha, ih fuel _ hrest (by simpa using hfuel)]
        simp [ha]
  exact hscan _ _ _ (hp.isList (.members e)).chain (hp.length_lt _)

end RalinkSdk.IgmpSnoop
