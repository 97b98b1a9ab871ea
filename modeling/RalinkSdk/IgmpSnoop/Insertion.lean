import RalinkSdk.IgmpSnoop.TableInv

/-!
# Insertion, and whole runs of the snooping table

An insertion looks the group up, ages entries out while it searches for a vacancy, fills
the vacancy and links it behind the last entry of its chain.  With the other operations
this gives the invariant of the table after every sequence of calls.
-/

namespace RalinkSdk.IgmpSnoop

open Lib List Option Function Nat

variable {t u w : Table} {v : View} {e i : Slot} {k : Bucket} {lists' : Lists}

/-! ## Aged entries -/

variable {chain : Bucket → List Slot}

theorem Directory.isGroup_iff (hd : Directory t chain)
    (hi : (t.content i).valid = true) (he : (t.content e).valid = true) :
    (t.content i).isGroup (t.content e).addr (t.content e).netDev = true ↔ i = e := by
  rw [Entry.isGroup_iff]
  constructor
  · intro h
    exact hd.key i e hi he h.2 h.1
  · rintro rfl
    exact ⟨rfl, rfl⟩

/-- An entry is off its chain, and the counter knows. -/
structure Unlinked (t : Table) (v : View) (e : Slot) (u : Table) : Prop where
  relinked : Relinked t u
  size : u.size = t.size - 1
  linked : ∀ k, Chain u.next (u.hash k) ((v.chain k).erase e)

theorem unlinkScan_spec (hok : t.Ok v) (hi : (t.content i).valid = true) (m l : List Slot) :
    ∀ (pre : List Slot) (h : Slot) (fuel : Nat), v.chain k = pre ++ h :: (l ++ i :: m) →
      l.length < fuel → ∃ u, t.unlinkScan i fuel h = some u ∧ Unlinked t v i u := by
  have hvalid : ∀ e ∈ v.chain k, (t.content e).valid = true := fun e he =>
    ((hok.directory.mem k e).mp he).1
  induction l with
  | nil =>
    intro pre h fuel hk hfuel
    obtain ⟨fuel, rfl⟩ := exists_eq_add_one_of_ne_zero (Nat.ne_zero_of_lt hfuel)
    have hnext : (t.content h).pNext = some i := hok.directory.next_eq hk
    have hself := (hok.directory.isGroup_iff hi hi).mpr rfl
    refine ⟨{ t.setNext h (t.content i).pNext with size := t.size - 1 }, ?_, ?_⟩
    · simp [Table.unlinkScan, hnext, hself]
    · have hr := Relinked.setNext t h (t.content i).pNext
      exact ⟨⟨hr.poolNext, hr.poolAddr, hr.header, hr.valid, hr.netDev, hr.addr⟩, rfl,
        hok.directory.unlink_behind hk⟩
  | cons c l ih =>
    intro pre h fuel hk hfuel
    obtain ⟨fuel, rfl⟩ := exists_eq_add_one_of_ne_zero (Nat.ne_zero_of_lt hfuel)
    have hnext : (t.content h).pNext = some c := hok.directory.next_eq hk
    -- an entry before the aged one is for another group or device
    have hci : ¬ (t.content i).isGroup (t.content c).addr (t.content c).netDev = true := by
      have hnd := hok.directory.nodup k
      rw [hok.directory.isGroup_iff hi (hvalid c (by rw [hk]; simp))]
      rintro rfl
      rw [hk] at hnd
      simp [nodup_append] at hnd
    have hk' : v.chain k = (pre ++ [h]) ++ c :: (l ++ i :: m) := by simpa using hk
    obtain ⟨u, hrun, hu⟩ := ih (pre ++ [h]) c fuel hk' (by simpa using hfuel)
    exact ⟨u, by simpa [Table.unlinkScan, hnext, hci] using hrun, hu⟩

theorem unlinkAged_spec (hok : t.Ok v) (hi : (t.content i).valid = true) :
    ∃ u, t.unlinkAged i = some u ∧ Unlinked t v i u := by
  obtain ⟨k, hkey⟩ : ∃ k, multicastAddrHashIndex (t.content i).addr = k := ⟨_, rfl⟩
  have hmem : i ∈ v.chain k := (hok.directory.mem k i).mpr ⟨hi, hkey⟩
  obtain ⟨l, m, hk⟩ := append_of_mem hmem
  have hstart : t.hash k = (v.chain k).head? := (hok.directory.linked k).head
  unfold Table.unlinkAged
  cases l with
  | nil =>
    -- the aged entry is the first of its chain
    have hhead : t.hash k = some i := by rw [hstart, hk]; rfl
    have hself := (hok.directory.isGroup_iff hi hi).mpr rfl
    refine ⟨{ t.setHash k (t.content i).pNext with size := t.size - 1 }, ?_, ?_⟩
    · simp [hkey, hhead, hself]
    · have hr := Relinked.setHash t k (t.content i).pNext
      exact ⟨⟨hr.poolNext, hr.poolAddr, hr.header, hr.valid, hr.netDev, hr.addr⟩, rfl,
        hok.directory.unlink_head hk⟩
  | cons h l =>
    have hhead : t.hash k = some h := by rw [hstart, hk]; rfl
    have hvalid : (t.content h).valid = true :=
      ((hok.directory.mem k h).mp (by rw [hk]; simp)).1
    have hhi : ¬ (t.content i).isGroup (t.content h).addr (t.content h).netDev = true := by
      have hnd := hok.directory.nodup k
      rw [hok.directory.isGroup_iff hi hvalid]
      rintro rfl
      rw [hk] at hnd
      simp at hnd
    have hfuel : l.length < Table.walkFuel := by
      have hlen := hok.directory.length_lt k
      rw [hk] at hlen
      simp at hlen
      omega
    obtain ⟨u, hrun, hu⟩ := unlinkScan_spec hok hi m l [] h Table.walkFuel hk hfuel
    exact ⟨u, by simp [hkey, hhead, hhi, hrun], hu⟩

/-- **Aging out** an entry in the search for a vacancy. -/
theorem ageOut_spec (hok : t.Ok v) (hi : (t.content i).valid = true) :
    ∃ u, t.ageOut i = some u ∧ Dropped t v i u (v.lists.released i) := by
  obtain ⟨u, hrun, hu⟩ := unlinkAged_spec hok hi
  have hr := hu.relinked
  -- the entry stays in place, but it is no longer `Valid`
  have hpool : (u.setEntry i { u.content i with valid := false }).PoolOk v.lists none := by
    have hheader : (u.setEntry i { u.content i with valid := false }).header = u.header :=
      Table.header_setEntry rfl
    unfold Table.PoolOk
    rw [hheader, hr.header]
    show Pool u.poolNext _ _ _
    rw [hr.poolNext]
    exact hok.pool
  obtain ⟨w, hrun', hs⟩ := deleteIgmpMemberList_spec hpool i
  refine ⟨w, by simp [Table.ageOut, hrun, hrun'], ?_⟩
  refine ⟨?_, ?_, ?_, ?_, ?_, ?_, hs.pool, ?_, hs.sub, v.lists.released_self i⟩
  · rw [hs.same.size]
    exact hu.size
  · intro k
    rw [hs.same.hash]
    apply (hu.linked k).congr
    intro e he
    have hne : e ≠ i := ne_of_mem_of_not_mem he (hok.directory.nodup k).not_mem_erase
    simpa [Table.next, hne] using hs.same.pNext e
  · rw [hs.same.valid]
    simp
  · intro e hne
    simpa [hne, hr.valid] using hs.same.valid e
  · intro e hne
    simpa [hne, hr.netDev] using hs.same.netDev e
  · intro e hne
    simpa [hne, hr.addr] using hs.same.addr e
  · rw [hs.addr]
    exact hr.poolAddr

theorem unlinkScan_bare {fuel : Nat} {h : Slot} (hrun : t.unlinkScan i fuel h = some u)
    (e' : Slot) : (u.content e').bare = (t.content e').bare := by
  induction fuel generalizing h with
  | zero => cases hrun
  | succ fuel ih =>
    rw [Table.unlinkScan] at hrun
    split at hrun
    · rw [← some.inj hrun]
    · split at hrun
      · rw [← some.inj hrun]
        exact bare_setNext t _ _ e'
      · exact ih hrun

theorem ageOut_bare (hrun : t.ageOut i = some u) {e' : Slot} (he : e' ≠ i) :
    (u.content e').bare = (t.content e').bare := by
  simp only [Table.ageOut, bind_eq_bind, bind_eq_some_iff] at hrun
  obtain ⟨w, hunlink, hclear⟩ := hrun
  have hw : (w.content e').bare = (t.content e').bare := by
    simp only [Table.unlinkAged, bind_eq_bind, bind_eq_some_iff] at hunlink
    obtain ⟨h, -, hrest⟩ := hunlink
    split at hrest
    · rw [← some.inj hrest]
      rfl
    · exact unlinkScan_bare hrest e'
  rw [deleteIgmpMemberList_content hclear he, Table.content_setEntry, update_of_ne he]
  exact hw

/-! ## The vacancy -/

/-- Where the search for a vacancy stops. -/
def Table.isVacancy (t : Table) (search : Slot → BitVec 32) (i : Slot) : Bool :=
  t.isAged i (search i) || !(t.content i).valid

theorem isVacancy_congr (h : (u.content i).bare = (t.content i).bare)
    (search : Slot → BitVec 32) : u.isVacancy search i = t.isVacancy search i := by
  have hbare : ∀ w : Table, w.isVacancy search i =
      (({ w with content := fun e => (w.content e).bare } : Table)).isVacancy search i :=
    fun _ => rfl
  rw [hbare u, hbare t]
  simp only [Table.isVacancy, Table.isAged, h]

theorem Table.Ok.swept_vacancy (hok : t.Ok v) (hi : (t.content i).valid = false) :
    Swept t v [i] t v none := by
  have hempty : v.lists (.members i) = [] := map_eq_nil_iff.mp (hok.empty i hi)
  refine ⟨(Lists.released_of_nil hempty).symm, rfl, ?_, fun _ _ _ => rfl⟩
  intro e he
  rw [mem_singleton.mp he]
  exact hi

/-- **The search** ends at a vacancy, which may be an entry it aged out. -/
theorem allocateEntry_spec (addr : MacAddr) (member : Option MacAddr) (dev : Nat)
    (type : MulticastFilterEntryType) (now : Table.Readings) (slots : List Slot)
    (p : Option Slot) (hok : t.Ok v) (hfree : ∃ i ∈ slots, (t.content i).valid = false) :
    ∃ u i v', Table.allocateEntry addr member dev type now slots t p =
        some (u.fillEntry i addr member dev type now.stamp, some i) ∧
      u.Ok v' ∧ Fewer t u ∧ slots.find? (t.isVacancy now.search) = some i ∧
      Swept t v [i] u v' none := by
  induction slots generalizing p with
  | nil =>
    obtain ⟨i, hi, -⟩ := hfree
    exact absurd hi (by simp)
  | cons i slots ih =>
    -- an aged entry becomes the vacancy
    by_cases haged : t.isAged i (now.search i) = true
    · have hvalid : (t.content i).valid = true := by
        simp only [Table.isAged, Bool.and_eq_true] at haged
        exact haged.1.1
      obtain ⟨u, hrun, hdrop⟩ := ageOut_spec hok hvalid
      have hfind : (i :: slots).find? (t.isVacancy now.search) = some i :=
        find?_cons_of_pos (by simp [Table.isVacancy, haged])
      refine ⟨u, i, _, ?_, hdrop.ok hok hvalid, hdrop.fewer hok hvalid, hfind,
        rfl, hdrop.poolAddr, ?_, ?_⟩
      · simp [Table.allocateEntry, haged, hrun, hdrop.gone]
      · intro e he
        rw [mem_singleton.mp he]
        exact hdrop.gone
      · intro e he _
        exact ageOut_bare hrun (by simpa using he)
    · by_cases hvalid : (t.content i).valid = true
      · have hrest : ∃ j ∈ slots, (t.content j).valid = false := by
          obtain ⟨j, hj, hfalse⟩ := hfree
          refine ⟨j, ?_, hfalse⟩
          rcases mem_cons.mp hj with rfl | hmem
          · rw [hvalid] at hfalse
            exact absurd hfalse (by simp)
          · exact hmem
        obtain ⟨u, j, v', hrun, hoku, hfew, hfind, hswept⟩ := ih (some i) hrest
        refine ⟨u, j, v', ?_, hoku, hfew, ?_, hswept⟩
        · simpa [Table.allocateEntry, haged, hvalid] using hrun
        · rw [find?_cons_of_neg (by simp [Table.isVacancy, haged, hvalid])]
          exact hfind
      · rw [Bool.not_eq_true] at hvalid
        refine ⟨t, i, v, ?_, hok, Fewer.refl t, ?_, hok.swept_vacancy hvalid⟩
        · simp [Table.allocateEntry, haged, hvalid]
        · exact find?_cons_of_pos (by simp [Table.isVacancy, hvalid])

/-- **A vacancy that was filled**, still off its chain. -/
structure Filled (t : Table) (v : View) (i : Slot) (addr : MacAddr) (dev : Nat) (u : Table)
    (lists' : Lists) : Prop where
  size : u.size = t.size + 1
  hash : u.hash = t.hash
  here : (u.content i).valid = true
  addr_eq : (u.content i).addr = addr
  netDev_eq : (u.content i).netDev = dev
  unlinked : (u.content i).pNext = none
  valid : ∀ e, e ≠ i → (u.content e).valid = (t.content e).valid
  netDev : ∀ e, e ≠ i → (u.content e).netDev = (t.content e).netDev
  addr : ∀ e, e ≠ i → (u.content e).addr = (t.content e).addr
  pNext : ∀ e, e ≠ i → (u.content e).pNext = (t.content e).pNext
  pool : u.PoolOk lists' none
  others : ∀ e, e ≠ i → u.stations lists' e = t.stations v.lists e
  stations : (u.stations lists' i).Nodup

/-- The stations of a new group: the one that joins, if a member entry is free for it. -/
def joining (free : List Member) : Option MacAddr → List MacAddr
  | none => []
  | some a => if free = [] then [] else [a]

theorem nodup_joining (free : List Member) (member : Option MacAddr) :
    (joining free member).Nodup := by
  cases member with
  | none => exact nodup_nil
  | some a =>
    show (if free = [] then [] else [a]).Nodup
    split
    · exact nodup_nil
    · exact nodup_singleton a

theorem fillEntry_spec (hok : t.Ok v) (hi : (t.content i).valid = false) (addr : MacAddr)
    (member : Option MacAddr) (dev : Nat) (type : MulticastFilterEntryType) (now : BitVec 32) :
    ∃ lists', Filled t v i addr dev (t.fillEntry i addr member dev type now) lists' ∧
      (t.fillEntry i addr member dev type now).stations lists' i =
        joining (v.lists .free) member := by
  -- the entry as it is before the member joins
  let x : Entry := { Entry.zero with
    valid := true, addr := addr, netDev := dev, lastTime := now, type := type,
    memberList := initList }
  have hempty : v.lists (.members i) = [] := map_eq_nil_iff.mp (hok.empty i hi)
  have hpool : (t.setEntry i x).PoolOk v.lists none := by
    refine ⟨?_, hok.pool.disjoint, hok.pool.loose⟩
    intro r
    have hlist := hok.pool.isList r
    cases r with
    | free => exact hlist
    | members e =>
      by_cases he : e = i
      · subst he
        rw [hempty]
        simpa [Table.header, x] using isList_initList
      · have hsame : (t.setEntry i x).header (.members e) = t.header (.members e) := by
          simp [Table.header, he]
        rw [hsame]
        exact hlist
  have hnone : t.stations v.lists i = [] := hok.empty i hi
  -- with or without a member, the groups are those of the table with the new entry
  obtain ⟨u, hu, lists', hsame, hpool', hothers, hstations⟩ :
      ∃ u, t.fillEntry i addr member dev type now = { u with size := u.size + 1 } ∧
        ∃ lists', SameGroups (t.setEntry i x) u ∧ u.PoolOk lists' none ∧
          (∀ e, e ≠ i → u.stations lists' e = t.stations v.lists e) ∧
          u.stations lists' i = joining (v.lists .free) member := by
    cases member with
    | none =>
      exact ⟨t.setEntry i x, rfl, v.lists, SameGroups.refl _, hpool, fun _ _ => rfl, hnone⟩
    | some a =>
      obtain ⟨hsame, lists', hpool', hothers, hhere⟩ := insertIgmpMember_spec hpool i a
      refine ⟨(t.setEntry i x).insertIgmpMember i a, rfl, lists', hsame, hpool', hothers, ?_⟩
      have hold : (t.setEntry i x).stations v.lists i = [] := hnone
      rw [hhere, hold]
      rfl
  rw [hu]
  refine ⟨lists', ⟨?_, hsame.hash, ?_, ?_, ?_, ?_, ?_, ?_, ?_, ?_, ?_, hothers,
    hstations ▸ nodup_joining _ member⟩, hstations⟩
  · show u.size + 1 = _
    rw [hsame.size]
    rfl
  · simpa [x] using hsame.valid i
  · simpa [x] using hsame.addr i
  · simpa [x] using hsame.netDev i
  · simpa [x, Entry.zero] using hsame.pNext i
  · intro e he
    simpa [he] using hsame.valid e
  · intro e he
    simpa [he] using hsame.netDev e
  · intro e he
    simpa [he] using hsame.addr e
  · intro e he
    simpa [he] using hsame.pNext e
  · exact ⟨hpool'.isList, hpool'.disjoint, hpool'.loose⟩

/-! ## Linking the new entry -/

theorem chainLast_spec (l : List Slot) :
    ∀ (h : Slot) (fuel : Nat), Chain t.next (some h) (h :: l) → l.length < fuel →
      t.chainLast fuel h = (h :: l).getLast? := by
  induction l with
  | nil =>
    intro h fuel hchain hfuel
    obtain ⟨fuel, rfl⟩ := exists_eq_add_one_of_ne_zero (Nat.ne_zero_of_lt hfuel)
    have hnext : (t.content h).pNext = none := hchain.2
    simp [Table.chainLast, hnext]
  | cons c l ih =>
    intro h fuel hchain hfuel
    obtain ⟨fuel, rfl⟩ := exists_eq_add_one_of_ne_zero (Nat.ne_zero_of_lt hfuel)
    have hnext : (t.content h).pNext = some c := hchain.2.1
    rw [Table.chainLast, hnext, getLast?_cons_cons]
    exact ih c fuel ⟨rfl, hchain.2.2⟩ (by simpa using hfuel)

/-- The chains with one more entry on chain `k`. -/
def addEntry (chain : Bucket → List Slot) (k : Bucket) (i : Slot) : Bucket → List Slot :=
  update chain k (chain k ++ [i])

theorem mem_addEntry {k k' : Bucket} :
    e ∈ addEntry chain k i k' ↔ e ∈ chain k' ∨ e = i ∧ k' = k := by
  by_cases hk : k' = k
  · subst hk
    simp [addEntry]
  · simp [addEntry, hk]

theorem nodup_addEntry {k : Bucket}
    (hnd : ∀ k, (chain k).Nodup) (hout : i ∉ chain k) (k' : Bucket) :
    (addEntry chain k i k').Nodup := by
  by_cases hk : k' = k
  · subst hk
    rw [addEntry, update_self, ← concat_eq_append]
    exact (hnd k').concat hout
  · rw [addEntry, update_of_ne hk]
    exact hnd k'

theorem hashAppend_spec
    (hlinked : ∀ k, Chain t.next (t.hash k) (chain k)) (hnd : ∀ k, (chain k).Nodup)
    (hdisj : ∀ e k k', e ∈ chain k → e ∈ chain k' → k = k') (hout : ∀ k, i ∉ chain k)
    (hnull : (t.content i).pNext = none) (k : Bucket) :
    ∃ u, t.hashAppend k i = some u ∧ Relinked t u ∧ u.size = t.size ∧
      ∀ k', Chain u.next (u.hash k') (addEntry chain k i k') := by
  have hstart : t.hash k = (chain k).head? := (hlinked k).head
  have hchain := hlinked k
  unfold Table.hashAppend
  cases hk : chain k with
  | nil =>
    rw [hk] at hstart
    rw [hstart]
    refine ⟨t.setHash k (some i), rfl, Relinked.setHash t k _, rfl, ?_⟩
    intro k'
    by_cases hkk : k' = k
    · subst hkk
      simpa [addEntry, hk, Table.next] using hnull
    · simpa [addEntry, hkk] using hlinked k'
  | cons h l =>
    have hlen : l.length < Table.walkFuel := by
      have hcard := (hnd k).length_le_card
      rw [hk, Fintype.card_fin] at hcard
      exact Nat.lt_of_lt_of_le (lt_of_succ_le hcard) (le_succ _)
    rw [hk] at hstart hchain
    -- the walk ends at the last entry, whose link is written
    have hlast : t.chainLast Table.walkFuel h = (h :: l).getLast? :=
      chainLast_spec l h _ (by rw [hstart] at hchain; exact hchain) hlen
    obtain ⟨l', a, hl'⟩ := (eq_nil_or_concat (h :: l)).resolve_left (by simp)
    rw [concat_eq_append] at hl'
    have ha : a ∈ chain k := by rw [hk, hl']; simp
    rw [hl', getLast?_concat] at hlast
    rw [hstart, head?_cons]
    refine ⟨t.setNext a (some i), by simp [hlast], Relinked.setNext t a _, rfl, ?_⟩
    intro k'
    rw [Table.next_setNext]
    by_cases hkk : k' = k
    · subst hkk
      have hnd' := hnd k'
      have hout' := hout k'
      rw [hk, hl'] at hnd' hout'
      rw [hl'] at hchain
      rw [addEntry, update_self, hk, hl']
      exact hchain.append hnd' hout' hnull
    · rw [addEntry, update_of_ne hkk]
      apply (hlinked k').update_of_not_mem
      intro hmem
      exact hkk (hdisj a k' k hmem ha)

section

variable {addr : MacAddr} {dev : Nat} (hf : Filled t v i addr dev u lists') (hok : t.Ok v)
  (hi : (t.content i).valid = false)
  (hnew : ∀ e, (t.content e).valid = true → (t.content e).isGroup addr dev = false)
  (hr : Relinked u w) (hw : w.size = u.size)

include hok hi in
theorem Table.Ok.vacancy_not_mem (k : Bucket) : i ∉ v.chain k := by
  intro hmem
  have hvalid := ((hok.directory.mem k i).mp hmem).1
  rw [hi] at hvalid
  exact absurd hvalid (by simp)

include hf hnew hr in
theorem Filled.fresh (he : e ≠ i) (hvalid : (w.content e).valid = true)
    (haddr : (w.content e).addr = addr) : (w.content e).netDev ≠ dev := by
  intro hdev
  rw [hr.valid, hf.valid e he] at hvalid
  rw [hr.addr, hf.addr e he] at haddr
  rw [hr.netDev, hf.netDev e he] at hdev
  have hgroup := Entry.isGroup_iff.mpr ⟨hdev, haddr⟩
  rw [hnew e hvalid] at hgroup
  exact absurd hgroup (by simp)

include hf hok hi hnew hr hw in
theorem Filled.directory (hsize : t.size.toNat < 64)
    (hlinked : ∀ k, Chain w.next (w.hash k)
      (addEntry v.chain (multicastAddrHashIndex addr) i k)) :
    Directory w (addEntry v.chain (multicastAddrHashIndex addr) i) := by
  have hout := hok.vacancy_not_mem hi
  have hivalid : (w.content i).valid = true := (hr.valid i).trans hf.here
  have hiaddr : (w.content i).addr = addr := (hr.addr i).trans hf.addr_eq
  have hidev : (w.content i).netDev = dev := (hr.netDev i).trans hf.netDev_eq
  refine ⟨?_, hlinked, ?_, ?_, ?_⟩
  -- one more entry in use
  · have hvalid : w.validSlots = insert i t.validSlots := by
      ext e
      by_cases he : e = i
      · subst he
        simp [hivalid]
      · simp [he, hr.valid e, hf.valid e he]
    have hnot : i ∉ t.validSlots := by simp [hi]
    rw [hvalid, Finset.card_insert_of_notMem hnot, ← hok.directory.size, hw, hf.size,
      BitVec.toNat_add]
    simp
    omega
  · intro k
    exact nodup_addEntry hok.directory.nodup (hout _) k
  · intro k e
    rw [mem_addEntry, hok.directory.mem k e]
    by_cases he : e = i
    · subst he
      rw [hivalid, hiaddr, hi]
      simp [eq_comm]
    · rw [hr.valid, hr.addr, hf.valid e he, hf.addr e he]
      simp [he]
  · intro e₁ e₂ h₁ h₂ haddr hdev
    -- the new entry differs from all others, which differ among themselves
    by_cases he₁ : e₁ = i <;> by_cases he₂ : e₂ = i
    · rw [he₁, he₂]
    · subst he₁
      exact absurd (hdev.symm.trans hidev)
        (hf.fresh hnew hr he₂ h₂ (haddr.symm.trans hiaddr))
    · subst he₂
      exact absurd (hdev.trans hidev) (hf.fresh hnew hr he₁ h₁ (haddr.trans hiaddr))
    · rw [hr.valid, hf.valid _ he₁] at h₁
      rw [hr.valid, hf.valid _ he₂] at h₂
      rw [hr.addr, hr.addr, hf.addr _ he₁, hf.addr _ he₂] at haddr
      rw [hr.netDev, hr.netDev, hf.netDev _ he₁, hf.netDev _ he₂] at hdev
      exact hok.directory.key e₁ e₂ h₁ h₂ haddr hdev

include hf hok hi hnew hr hw in
theorem Filled.ok (hsize : t.size.toNat < 64)
    (hlinked : ∀ k, Chain w.next (w.hash k)
      (addEntry v.chain (multicastAddrHashIndex addr) i k)) :
    w.Ok ⟨addEntry v.chain (multicastAddrHashIndex addr) i, lists'⟩ := by
  have hstations : ∀ e, w.stations lists' e = u.stations lists' e := by
    intro e
    unfold Table.stations
    rw [hr.poolAddr]
  refine ⟨hf.directory hok hi hnew hr hw hsize hlinked, ?_, ?_, ?_⟩
  · unfold Table.PoolOk
    rw [hr.poolNext, hr.header]
    exact hf.pool
  · intro e he
    -- an entry that is not in use is not the new one
    have hne : e ≠ i := by
      rintro rfl
      rw [hr.valid, hf.here] at he
      exact absurd he (by simp)
    rw [hr.valid, hf.valid e hne] at he
    rw [hstations, hf.others e hne]
    exact hok.empty e he
  · intro e
    rw [hstations]
    by_cases he : e = i
    · subst he
      exact hf.stations
    · rw [hf.others e he]
      exact hok.stations e

end

theorem Table.Ok.exists_vacancy (hok : t.Ok v) (hsize : t.size.toNat < 64) :
    ∃ i, (t.content i).valid = false := by
  by_contra hall
  push Not at hall
  have hfull : t.validSlots = Finset.univ := by
    ext e
    simpa using hall e
  rw [hok.directory.size, hfull, Finset.card_univ, Fintype.card_fin] at hsize
  exact absurd hsize (Nat.lt_irrefl _)

/-- **A new group** is put in a vacancy and on its chain. -/
theorem Table.Ok.insertGroup (hok : t.Ok v) (hsize : t.size.toNat < 64) (addr : MacAddr)
    (member : Option MacAddr) (dev : Nat) (type : MulticastFilterEntryType)
    (now : Table.Readings)
    (hnew : ∀ e, (t.content e).valid = true → (t.content e).isGroup addr dev = false) :
    ∃ w v' i, t.insertGroup addr member dev type now = some w ∧ w.Ok v' ∧
      (finRange _).find? (t.isVacancy now.search) = some i ∧
      (w.content i).valid = true ∧ (w.content i).isGroup addr dev = true ∧
      w.stations v'.lists i = joining (v.lists.released i .free) member := by
  obtain ⟨j, hj⟩ := hok.exists_vacancy hsize
  obtain ⟨u, i, v', hrun, hoku, hfew, hfind, hswept⟩ := allocateEntry_spec addr member dev type
    now (finRange _) none hok ⟨j, mem_finRange j, hj⟩
  have hi : (u.content i).valid = false := hswept.cleared i (mem_singleton.mpr rfl)
  -- aging out entries has added no group and has not filled the table
  have hnew' : ∀ e, (u.content e).valid = true → (u.content e).isGroup addr dev = false := by
    intro e he
    rw [hfew.isGroup he]
    exact hnew e (hfew.valid e he)
  have hsize' : u.size.toNat < 64 := Nat.lt_of_le_of_lt hfew.size hsize
  obtain ⟨lists', hf, hjoin⟩ := fillEntry_spec hoku hi addr member dev type now.stamp
  have hout := hoku.vacancy_not_mem hi
  have hlinked : ∀ k, Chain (u.fillEntry i addr member dev type now.stamp).next
      ((u.fillEntry i addr member dev type now.stamp).hash k) (v'.chain k) := by
    intro k
    rw [hf.hash]
    apply (hoku.directory.linked k).congr
    intro e he
    exact hf.pNext e (ne_of_mem_of_not_mem he (hout k))
  obtain ⟨w, hrun', hr, hw, hlinked'⟩ := hashAppend_spec hlinked hoku.directory.nodup
    (fun e k k' he he' => by
      by_contra hne
      exact hoku.directory.not_mem he' hne he)
    hout hf.unlinked (multicastAddrHashIndex addr)
  refine ⟨w, _, i, ?_, hf.ok hoku hi hnew' hr hw hsize' hlinked', hfind,
    (hr.valid i).trans hf.here, ?_, ?_⟩
  · simp [Table.insertGroup, hrun, hrun']
  · rw [Entry.isGroup_iff, hr.netDev, hr.addr]
    exact ⟨hf.netDev_eq, hf.addr_eq⟩
  · have hfree : v'.lists .free = v.lists.released i .free := congrFun hswept.lists .free
    rw [← hfree, ← hjoin]
    unfold Table.stations
    rw [hr.poolAddr]

/-- **A station joins** a group in the table. -/
theorem Table.Ok.insertMember (hok : t.Ok v) (he : (t.content e).valid = true) (a : MacAddr)
    (ha : a ∉ t.stations v.lists e) :
    ∃ v', (t.insertIgmpMember e a).Ok v' ∧ (t.insertIgmpMember e a).stations v'.lists e =
      t.stations v.lists e ++ joining (v.lists .free) (some a) := by
  obtain ⟨hsame, lists', hpool, hothers, hhere⟩ := insertIgmpMember_spec hok.pool e a
  refine ⟨⟨v.chain, lists'⟩, ⟨hok.directory.congr hsame, hpool, ?_, ?_⟩, hhere⟩
  · intro e' he'
    rw [hsame.valid] at he'
    have hne : e' ≠ e := by
      rintro rfl
      rw [he] at he'
      exact absurd he' (by simp)
    rw [hothers e' hne]
    exact hok.empty e' he'
  · intro e'
    by_cases hne : e' = e
    · subst hne
      -- either the pool was used up, or the station is the last of the group
      rw [hhere]
      split
      · rw [append_nil]
        exact hok.stations e'
      · rw [← concat_eq_append]
        exact (hok.stations e').concat ha
    · rw [hothers e' hne]
      exact hok.stations e'

/-- **Insertion** keeps the invariant. -/
theorem Table.Ok.insertEntry (hok : t.Ok v) (addr : MacAddr) (member : Option MacAddr)
    (dev : Nat) (type : MulticastFilterEntryType) (now : Table.Readings) :
    ∃ u b v', t.multicastFilterTableInsertEntry addr member dev type now = some (u, b) ∧
      u.Ok v' := by
  unfold Table.multicastFilterTableInsertEntry
  by_cases hfull : maxLenOfMulticastFilterTable ≤ t.size.toNat
  · rw [if_pos hfull]
    exact ⟨t, false, v, rfl, hok⟩
  rw [if_neg hfull]
  obtain ⟨u, r, v', hrun, hoku, hfew, hfound, -⟩ := hok.lookup addr dev now.lookup
  -- the lookup may have aged entries out, but has added none
  have hsize : u.size.toNat < 64 := Nat.lt_of_le_of_lt hfew.size (Nat.lt_of_not_le hfull)
  rw [hrun]
  -- a new group; or a known one, with a new station or without
  cases r with
  | none =>
    obtain ⟨w, v'', -, hrun', hokw, -⟩ := hoku.insertGroup hsize addr member dev type now
      fun e he => hfound.no_entry hoku he
    exact ⟨w, true, v'', by simp [hrun'], hokw⟩
  | some e =>
    cases member with
    | none => exact ⟨u, false, v', rfl, hoku⟩
    | some a =>
      have hwalk := hasMember_spec hoku.pool e a
      by_cases ha : a ∈ u.stations v'.lists e
      · exact ⟨u, false, v', by simp [hwalk, ha], hoku⟩
      · obtain ⟨v'', hokw, -⟩ := hoku.insertMember (hfound.present e rfl).1 a ha
        exact ⟨u.insertIgmpMember e a, true, v'', by simp [hwalk, ha], hokw⟩

/-! ## Whole runs -/

theorem foldl_insertTailList_free (l : List Member) :
    ∀ (t : Table) (put : List Member), IsList t.poolNext t.freeEntryList put →
      (put ++ l).Nodup →
      ∃ u, l.foldl (fun t m => t.insertTailList .free m) t = u ∧ u.size = t.size ∧
        u.hash = t.hash ∧ u.content = t.content ∧
        IsList u.poolNext u.freeEntryList (put ++ l) := by
  induction l with
  | nil =>
    intro t put hlist _
    exact ⟨t, rfl, rfl, rfl, rfl, by simpa using hlist⟩
  | cons m l ih =>
    intro t put hlist hnd
    have hm : m ∉ put := by
      intro hmem
      exact (nodup_append.mp hnd).2.2 m hmem m mem_cons_self rfl
    have hnext : IsList (t.insertTailList .free m).poolNext
        (t.insertTailList .free m).freeEntryList (put ++ [m]) := hlist.insertTail hm
    obtain ⟨u, hu, hsize, hhash, hcontent, hdone⟩ := ih _ (put ++ [m]) hnext (by simpa using hnd)
    exact ⟨u, hu, hsize, hhash, hcontent, by simpa using hdone⟩

/-- What the pointers of a new table spell. -/
def View.init : View where
  chain _ := []
  lists
    | .free => finRange _
    | .members _ => []

theorem multicastFilterTableInit_ok : ∃ v, multicastFilterTableInit.Ok v := by
  obtain ⟨u, hu, hsize, hhash, hcontent, hlist⟩ := foldl_insertTailList_free
    (finRange freeMemberPoolSize) Table.zero [] isList_initList (nodup_finRange _)
  -- the loop puts the whole pool on the free list
  have hinit : multicastFilterTableInit = u := hu
  have hentry : ∀ e, u.content e = Entry.zero := fun e => by rw [hcontent]; rfl
  rw [hinit]
  refine ⟨View.init, ⟨?_, ?_, ?_, ?_, ?_⟩, ⟨?_, ?_, ?_⟩, ?_, ?_⟩
  · have hnone : u.validSlots = ∅ := by
      ext e
      simp [hentry, Entry.zero]
    rw [hnone, hsize]
    rfl
  · intro k
    show u.hash k = none
    rw [hhash]
    rfl
  · intro k
    exact nodup_nil
  · intro k e
    simp [View.init, hentry, Entry.zero]
  · intro e e' he
    rw [hentry] at he
    exact absurd he (by simp [Entry.zero])
  · intro r
    cases r with
    | free => exact hlist
    | members e =>
      show IsList _ (u.content e).memberList []
      rw [hentry]
      exact isList_initList
  · intro m r r' hr hr'
    cases r with
    | free =>
      cases r' with
      | free => rfl
      | members e => exact absurd hr' (by simp [View.init])
    | members e => exact absurd hr (by simp [View.init])
  · intro m
    constructor
    · intro h
      exact absurd h (by simp)
    · intro h
      exact absurd (mem_finRange m) (h .free)
  · intro e _
    rfl
  · intro e
    exact nodup_nil

theorem Table.Ok.call (hok : t.Ok v) (c : Call) :
    ∃ u, t.call c = some u ∧ ∃ v', u.Ok v' := by
  cases c with
  | insertEntry addr member dev type now =>
    obtain ⟨u, b, v', hrun, hoku⟩ := hok.insertEntry addr member dev type now
    exact ⟨u, by simp [Table.call, hrun], v', hoku⟩
  | deleteEntry addr member dev =>
    obtain ⟨u, v', hrun, hoku, -⟩ := hok.deleteEntry addr member dev
    exact ⟨u, by simp [Table.call, hrun], v', hoku⟩
  | lookup addr dev times =>
    obtain ⟨u, r, v', hrun, hoku, -⟩ := hok.lookup addr dev times
    exact ⟨u, by simp [Table.call, hrun], v', hoku⟩
  | groupDelMembers member dev => exact hok.groupDelMembers member dev

/-- The list is `freeEntryList` or that of a `Valid` entry. -/
def Table.InUse (t : Table) : ListRef → Prop
  | .free => True
  | .members e => (t.content e).valid = true

/-- **The shape of the table**, with what its pointers spell.  Chain `k` holds an entry once
    if it is `Valid` and its address hashes to `k`, and otherwise not at all; a member entry
    is on exactly one list, and there once. -/
structure Table.Consistent (t : Table) (v : View) : Prop where
  size : t.size.toNat = t.validSlots.card
  chains : ∀ k, Chain t.next (t.hash k) (v.chain k)
  once : ∀ k e, (v.chain k).count e =
    if (t.content e).valid = true ∧ multicastAddrHashIndex (t.content e).addr = k then 1 else 0
  keys : ∀ e e', (t.content e).valid = true → (t.content e').valid = true →
    (t.content e).addr = (t.content e').addr → (t.content e).netDev = (t.content e').netDev →
    e = e'
  lists : ∀ r, t.InUse r → IsList t.poolNext (t.header r) (v.lists r)
  partition : ∀ m, ∃! r, t.InUse r ∧ m ∈ v.lists r
  stations : ∀ e, (t.content e).valid = true →
    ((v.lists (.members e)).map t.poolAddr).Nodup

theorem Table.Ok.consistent (hok : t.Ok v) : t.Consistent v where
  size := hok.directory.size
  chains := hok.directory.linked
  once k e := by
    have hmem := hok.directory.mem k e
    split
    · next h => exact count_eq_one_of_mem (hok.directory.nodup k) (hmem.mpr h)
    · next h => exact count_eq_zero_of_not_mem fun he => h (hmem.mp he)
  keys := hok.directory.key
  lists r _ := hok.pool.isList r
  partition m := by
    have hin : ∃ r, m ∈ v.lists r := by
      by_contra hnone
      push Not at hnone
      exact absurd ((hok.pool.loose m).mpr hnone) (by simp)
    obtain ⟨r, hr⟩ := hin
    refine ⟨r, ⟨?_, hr⟩, fun r' hr' => hok.pool.disjoint m r' r hr'.2 hr⟩
    cases r with
    | free => trivial
    | members e =>
      -- an entry that is not in use has no members
      show (t.content e).valid = true
      by_contra hvalid
      have hempty : v.lists (.members e) = [] :=
        map_eq_nil_iff.mp (hok.empty e (Bool.not_eq_true _ ▸ hvalid))
      rw [hempty] at hr
      exact absurd hr (by simp)
  stations e _ := hok.stations e

theorem calls_ok (calls : List Call) :
    ∃ t, calls.foldlM Table.call multicastFilterTableInit = some t ∧ ∃ v, t.Ok v := by
  have hstep : ∀ (t : Table) (c : Call), (∃ v, t.Ok v) → ∃ u, t.call c = some u ∧ ∃ v, u.Ok v := by
    intro t c ⟨v, hok⟩
    exact hok.call c
  exact foldlM_invariant calls hstep multicastFilterTableInit_ok

/-- **The snooping table over whole runs**: after every sequence of calls, at any times, no
    call has failed to end, and counter, array, hash chains and member lists agree. -/
theorem snooping_table_run (calls : List Call) :
    ∃ t v, calls.foldlM Table.call multicastFilterTableInit = some t ∧ t.Consistent v := by
  obtain ⟨t, hrun, v, hok⟩ := calls_ok calls
  exact ⟨t, v, hrun, hok.consistent⟩

end RalinkSdk.IgmpSnoop
