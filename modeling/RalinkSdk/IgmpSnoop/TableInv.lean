import RalinkSdk.IgmpSnoop.Members
import RalinkSdk.Lib.Run

/-!
# The snooping table keeps its shape

A `View` of a table says what its pointers spell: the entries on each hash chain and the
member entries on each list.  `Table.Ok` is the invariant: counter, array, chains and lists
agree.  Each operation is split into steps that unlink an entry, clear it, fill a vacancy or
link an entry, and each step has one lemma about chains and one about lists.
-/

namespace RalinkSdk.IgmpSnoop

open Lib List Option Function Nat

variable {t u : Table} {e i : Slot} {k : Bucket}

/-! ## The invariant -/

/-- The links of the entries. -/
def Table.next (t : Table) : Slot → Option Slot := fun e => (t.content e).pNext

/-- The `Valid` entries of `Content`. -/
def Table.validSlots (t : Table) : Finset Slot :=
  Finset.univ.filter fun e => (t.content e).valid = true

/-- What the pointers of a table spell. -/
structure View where
  chain : Bucket → List Slot
  lists : Lists

/-- Counter, array and hash chains agree. -/
structure Directory (t : Table) (chain : Bucket → List Slot) : Prop where
  size : t.size.toNat = t.validSlots.card
  linked : ∀ k, Chain t.next (t.hash k) (chain k)
  nodup : ∀ k, (chain k).Nodup
  mem : ∀ k e, e ∈ chain k ↔
    (t.content e).valid = true ∧ multicastAddrHashIndex (t.content e).addr = k
  key : ∀ e e', (t.content e).valid = true → (t.content e').valid = true →
    (t.content e).addr = (t.content e').addr → (t.content e).netDev = (t.content e').netDev →
    e = e'

/-- **The invariant** of the table. -/
structure Table.Ok (t : Table) (v : View) : Prop where
  directory : Directory t v.chain
  pool : t.PoolOk v.lists none
  empty : ∀ e, (t.content e).valid = false → t.stations v.lists e = []
  stations : ∀ e, (t.stations v.lists e).Nodup

@[simp] theorem Table.mem_validSlots : e ∈ t.validSlots ↔ (t.content e).valid = true := by
  simp [Table.validSlots]

theorem Directory.congr {chain : Bucket → List Slot} (hd : Directory t chain)
    (hs : SameGroups t u) : Directory u chain where
  size := by
    have hvalid : u.validSlots = t.validSlots := by
      ext e
      simp [hs.valid e]
    rw [hs.size, hvalid, hd.size]
  linked k := by
    rw [hs.hash]
    exact (hd.linked k).congr fun e _ => hs.pNext e
  nodup := hd.nodup
  mem k e := by
    rw [hs.valid, hs.addr]
    exact hd.mem k e
  key e e' := by
    rw [hs.valid, hs.valid, hs.addr, hs.addr, hs.netDev, hs.netDev]
    exact hd.key e e'

theorem Table.Ok.shrink {v : View} {lists' : Lists} (hok : t.Ok v)
    (hs : Shrunk t v.lists u lists') : u.Ok ⟨v.chain, lists'⟩ where
  directory := hok.directory.congr hs.same
  pool := hs.pool
  empty e he := by
    have hsub := hs.stations e
    rw [hok.empty e ((hs.same.valid e).symm.trans he)] at hsub
    exact sublist_nil.mp hsub
  stations e := List.Nodup.sublist (hs.stations e) (hok.stations e)

section

variable {chain : Bucket → List Slot} {l m : List Slot} {p : Slot}

theorem Directory.not_mem (hd : Directory t chain) (he : e ∈ chain k) {k' : Bucket}
    (hk : k' ≠ k) : e ∉ chain k' := by
  intro he'
  exact hk (((hd.mem k' e).mp he').2.symm.trans ((hd.mem k e).mp he).2)

theorem Directory.length_lt (hd : Directory t chain) (k : Bucket) :
    (chain k).length < Table.walkFuel := by
  have hcard := (hd.nodup k).length_le_card
  rw [Fintype.card_fin] at hcard
  exact lt_succ_of_le hcard

private theorem erase_mid (hnd : (l ++ e :: m).Nodup) : (l ++ e :: m).erase e = l ++ m := by
  have hel : e ∉ l := by
    intro hmem
    exact (nodup_append.mp hnd).2.2 e hmem e mem_cons_self rfl
  rw [erase_append_right _ hel, erase_cons_head]

theorem Directory.next_eq (hd : Directory t chain) (hk : chain k = l ++ e :: m) :
    (t.content e).pNext = m.head? := by
  have hchain := hd.linked k
  rw [hk] at hchain
  obtain ⟨r, -, hr⟩ := chain_append.mp hchain
  exact Chain.head hr.2

theorem Directory.head_iff (hd : Directory t chain) (hk : chain k = l ++ e :: m) :
    some e = t.hash k ↔ l = [] := by
  have hhead : t.hash k = (l ++ e :: m).head? := hk ▸ (hd.linked k).head
  have hnd := hd.nodup k
  rw [hk] at hnd
  rw [hhead]
  cases l with
  | nil => simp
  | cons a l =>
    have hne : e ≠ a := by
      rintro rfl
      simp at hnd
    simp [hne]

@[simp] theorem Table.next_setHash (p : Option Slot) : (t.setHash k p).next = t.next := rfl

@[simp] theorem Table.hash_setHash (p : Option Slot) :
    (t.setHash k p).hash = update t.hash k p := rfl

@[simp] theorem Table.next_setNext (p : Option Slot) :
    (t.setNext e p).next = update t.next e p := by
  funext e'
  by_cases he : e' = e
  · subst he
    simp [Table.next, Table.setNext]
  · simp [Table.next, Table.setNext, he]

theorem Directory.unlink_head (hd : Directory t chain) (hk : chain k = e :: m) (k' : Bucket) :
    Chain (t.setHash k (t.content e).pNext).next ((t.setHash k (t.content e).pNext).hash k')
      ((chain k').erase e) := by
  have hchain := hd.linked k'
  by_cases hkk : k' = k
  · subst hkk
    rw [hk] at hchain
    have hrest : Chain t.next (t.content e).pNext m := hchain.2
    simpa [hk] using hrest
  · have hout := hd.not_mem (by rw [hk]; exact mem_cons_self) hkk
    simpa [erase_of_not_mem hout, hkk] using hchain

theorem Directory.unlink_behind (hd : Directory t chain) (hk : chain k = l ++ p :: e :: m)
    (k' : Bucket) :
    Chain (t.setNext p (t.content e).pNext).next (t.hash k') ((chain k').erase e) := by
  have hchain := hd.linked k'
  rw [Table.next_setNext]
  by_cases hkk : k' = k
  · subst hkk
    have hnd := hd.nodup k'
    rw [hk] at hchain hnd
    have hsplit : l ++ p :: e :: m = (l ++ [p]) ++ e :: m := by simp
    -- on its own chain the entry goes, and its predecessor stays
    have hrest : (chain k').erase e = l ++ p :: m := by
      rw [hk, hsplit, erase_mid (hsplit ▸ hnd)]
      simp
    rw [hrest]
    exact hchain.unlink hnd
  -- the link written belongs to another chain
  · have hp := hd.not_mem (e := p) (k := k) (by rw [hk]; simp) hkk
    have he := hd.not_mem (e := e) (k := k) (by rw [hk]; simp) hkk
    rw [erase_of_not_mem he]
    exact hchain.update_of_not_mem hp _

end

/-! ## Entries that leave -/

/-- Only the hash chains differ. -/
structure Relinked (t u : Table) : Prop where
  poolNext : u.poolNext = t.poolNext
  poolAddr : u.poolAddr = t.poolAddr
  header : u.header = t.header
  valid : ∀ e, (u.content e).valid = (t.content e).valid
  netDev : ∀ e, (u.content e).netDev = (t.content e).netDev
  addr : ∀ e, (u.content e).addr = (t.content e).addr

theorem Relinked.setHash (t : Table) (k : Bucket) (p : Option Slot) : Relinked t (t.setHash k p) :=
  ⟨rfl, rfl, by funext r; cases r <;> rfl, fun _ => rfl, fun _ => rfl, fun _ => rfl⟩

theorem Relinked.setNext (t : Table) (e : Slot) (p : Option Slot) : Relinked t (t.setNext e p) :=
  -- the entry written differs from the old one in its link only
  ⟨rfl, rfl, Table.header_setEntry rfl, Table.field_setEntry Entry.valid rfl,
    Table.field_setEntry Entry.netDev rfl, Table.field_setEntry Entry.addr rfl⟩

/-- The table has no group it did not have. -/
structure Fewer (t u : Table) : Prop where
  size : u.size.toNat ≤ t.size.toNat
  valid : ∀ e, (u.content e).valid = true → (t.content e).valid = true
  addr : ∀ e, (u.content e).valid = true → (u.content e).addr = (t.content e).addr
  netDev : ∀ e, (u.content e).valid = true → (u.content e).netDev = (t.content e).netDev

theorem Fewer.refl (t : Table) : Fewer t t :=
  ⟨Nat.le_refl _, fun _ h => h, fun _ _ => rfl, fun _ _ => rfl⟩

theorem Fewer.trans {w : Table} (h : Fewer t u) (h' : Fewer u w) : Fewer t w where
  size := h'.size.trans h.size
  valid e he := h.valid e (h'.valid e he)
  addr e he := (h'.addr e he).trans (h.addr e (h'.valid e he))
  netDev e he := (h'.netDev e he).trans (h.netDev e (h'.valid e he))

theorem SameGroups.fewer (h : SameGroups t u) : Fewer t u where
  size := by rw [h.size]
  valid e he := (h.valid e).symm.trans he
  addr e _ := h.addr e
  netDev e _ := h.netDev e

/-- **An entry that left**: off its chain, no longer `Valid`, its members freed. -/
structure Dropped (t : Table) (v : View) (e : Slot) (u : Table) (lists' : Lists) : Prop where
  size : u.size = t.size - 1
  linked : ∀ k, Chain u.next (u.hash k) ((v.chain k).erase e)
  gone : (u.content e).valid = false
  valid : ∀ e', e' ≠ e → (u.content e').valid = (t.content e').valid
  netDev : ∀ e', e' ≠ e → (u.content e').netDev = (t.content e').netDev
  addr : ∀ e', e' ≠ e → (u.content e').addr = (t.content e').addr
  pool : u.PoolOk lists' none
  poolAddr : u.poolAddr = t.poolAddr
  sub : ∀ e', (lists' (.members e')).Sublist (v.lists (.members e'))
  empty : lists' (.members e) = []

/-- The view without an entry. -/
def View.drop (v : View) (e : Slot) (lists' : Lists) : View :=
  ⟨fun k => (v.chain k).erase e, lists'⟩

section

variable {v : View} {lists' : Lists}

theorem Dropped.validSlots (hd : Dropped t v e u lists') : u.validSlots = t.validSlots.erase e := by
  ext e'
  by_cases he : e' = e
  · subst he
    simp [hd.gone]
  · simp [he, hd.valid e' he]

theorem Dropped.toNat_size (hd : Dropped t v e u lists') (hok : t.Ok v)
    (he : (t.content e).valid = true) : u.size.toNat + 1 = t.size.toNat := by
  have hmem : e ∈ t.validSlots := Table.mem_validSlots.mpr he
  -- the counter is not zero, so it does not wrap
  have hpos : 0 < t.size.toNat := by
    rw [hok.directory.size]
    exact Finset.card_pos.mpr ⟨e, hmem⟩
  have hbound : t.size.toNat < 256 := t.size.isLt
  rw [hd.size, BitVec.toNat_sub]
  simp
  omega

theorem Dropped.fewer (hd : Dropped t v e u lists') (hok : t.Ok v)
    (he : (t.content e).valid = true) : Fewer t u := by
  have hne : ∀ e', (u.content e').valid = true → e' ≠ e := by
    rintro e' he' rfl
    rw [hd.gone] at he'
    exact absurd he' (by simp)
  refine ⟨?_, ?_, ?_, ?_⟩
  · have hsize := hd.toNat_size hok he
    omega
  · intro e' he'
    rw [← hd.valid e' (hne e' he')]
    exact he'
  · intro e' he'
    exact hd.addr e' (hne e' he')
  · intro e' he'
    exact hd.netDev e' (hne e' he')

theorem Dropped.ok (hd : Dropped t v e u lists') (hok : t.Ok v)
    (he : (t.content e).valid = true) : u.Ok (v.drop e lists') := by
  have hfew := hd.fewer hok he
  have hstations : ∀ e', (u.stations lists' e').Sublist (t.stations v.lists e') := by
    intro e'
    unfold Table.stations
    rw [hd.poolAddr]
    exact (hd.sub e').map _
  refine ⟨⟨?_, hd.linked, ?_, ?_, ?_⟩, hd.pool, ?_, ?_⟩
  -- the counter goes down by one, and so does the number of entries in use
  · have hmem : e ∈ t.validSlots := Table.mem_validSlots.mpr he
    rw [hd.validSlots, Finset.card_erase_of_mem hmem, ← hok.directory.size]
    have hsize := hd.toNat_size hok he
    omega
  · intro k
    exact (hok.directory.nodup k).erase e
  · intro k e'
    by_cases hee : e' = e
    · subst hee
      simp [View.drop, hd.gone, (hok.directory.nodup k).not_mem_erase]
    · show e' ∈ (v.chain k).erase e ↔ _
      rw [mem_erase_of_ne hee, hd.valid e' hee, hd.addr e' hee]
      exact hok.directory.mem k e'
  · intro e₁ e₂ h₁ h₂ haddr hdev
    apply hok.directory.key e₁ e₂ (hfew.valid e₁ h₁) (hfew.valid e₂ h₂)
    · rw [← hfew.addr e₁ h₁, ← hfew.addr e₂ h₂]
      exact haddr
    · rw [← hfew.netDev e₁ h₁, ← hfew.netDev e₂ h₂]
      exact hdev
  · intro e' he'
    by_cases hee : e' = e
    · subst hee
      show (lists' _).map _ = []
      rw [hd.empty]
      rfl
    · have hsub := hstations e'
      rw [hok.empty e' ((hd.valid e' hee).symm.trans he')] at hsub
      exact sublist_nil.mp hsub
  · intro e'
    exact List.Nodup.sublist (hstations e') (hok.stations e')

theorem clearEntry_spec (hok : t.Ok v) (hr : Relinked t u) (hsize : u.size = t.size)
    (hlinked : ∀ k, Chain u.next (u.hash k) ((v.chain k).erase e)) :
    ∃ w, u.clearEntry e = some w ∧ Dropped t v e w (v.lists.released e) := by
  have hpool : u.PoolOk v.lists none := by
    unfold Table.PoolOk
    rw [hr.poolNext, hr.header]
    exact hok.pool
  obtain ⟨w, hrun, hs⟩ := deleteIgmpMemberList_spec hpool e
  -- zeroing the entry leaves the list headers: its own stands for the empty list already
  have hheader : ∀ r,
      IsList w.poolNext ((w.setEntry e Entry.zero).header r) (v.lists.released e r) := by
    intro r
    have hlist := hs.pool.isList r
    cases r with
    | free => exact hlist
    | members e' =>
      by_cases hee : e' = e
      · subst hee
        simpa [Table.header, Entry.zero] using isList_initList
      · simpa [Table.header, hee] using hlist
  refine ⟨{ w.setEntry e Entry.zero with size := w.size - 1 }, ?_, ?_⟩
  · simp [Table.clearEntry, hrun]
  · refine ⟨?_, ?_, ?_, ?_, ?_, ?_, ?_, ?_, hs.sub, v.lists.released_self e⟩
    · show w.size - 1 = t.size - 1
      rw [hs.same.size, hsize]
    · intro k
      show Chain (w.setEntry e Entry.zero).next (w.hash k) _
      rw [hs.same.hash]
      apply (hlinked k).congr
      intro e' he'
      have hne : e' ≠ e := ne_of_mem_of_not_mem he' (hok.directory.nodup k).not_mem_erase
      simpa [Table.next, hne] using hs.same.pNext e'
    · simp [Entry.zero]
    · intro e' hne
      simpa [hne, hr.valid] using hs.same.valid e'
    · intro e' hne
      simpa [hne, hr.netDev] using hs.same.netDev e'
    · intro e' hne
      simpa [hne, hr.addr] using hs.same.addr e'
    · exact ⟨hheader, hs.pool.disjoint, hs.pool.loose⟩
    · exact hs.addr.trans hr.poolAddr

/-- **Removing an entry** that a walk along its chain has found. -/
theorem removeEntry_spec {l m : List Slot} {pPrev : Option Slot} (hok : t.Ok v)
    (hk : v.chain k = l ++ e :: m) (hprev : l = [] ∨ pPrev = l.getLast?) :
    ∃ u, t.removeEntry k pPrev e = some u ∧ Dropped t v e u (v.lists.released e) := by
  have hhead := hok.directory.head_iff hk
  unfold Table.removeEntry
  rcases eq_nil_or_concat l with hl | ⟨l', p, hl⟩
  · -- the entry is the first of its chain
    subst hl
    rw [if_pos (hhead.mpr rfl)]
    exact clearEntry_spec hok (Relinked.setHash t k _) rfl (hok.directory.unlink_head hk)
  · rw [concat_eq_append] at hl
    subst hl
    obtain rfl : pPrev = some p := by simpa using hprev
    have hk' : v.chain k = l' ++ p :: e :: m := by simpa using hk
    rw [if_neg (fun heq => by simpa using hhead.mp heq)]
    exact clearEntry_spec hok (Relinked.setNext t p _) rfl (hok.directory.unlink_behind hk')

end

/-! ## Lookup -/

section

variable {v : View} {addr : MacAddr} {dev : Nat}

theorem Entry.isGroup_iff {x : Entry} :
    x.isGroup addr dev = true ↔ x.netDev = dev ∧ x.addr = addr := by
  simp [Entry.isGroup]

theorem Fewer.isGroup (h : Fewer t u) (he : (u.content e).valid = true) :
    (u.content e).isGroup addr dev = (t.content e).isGroup addr dev := by
  simp [Entry.isGroup, h.addr e he, h.netDev e he]

theorem Table.Ok.touch (hok : t.Ok v) (now : BitVec 32) :
    SameGroups t (t.setEntry e { t.content e with lastTime := now }) ∧
      (t.setEntry e { t.content e with lastTime := now }).Ok v := by
  have hsame : SameGroups t (t.setEntry e { t.content e with lastTime := now }) :=
    ⟨rfl, rfl, Table.field_setEntry Entry.valid rfl, Table.field_setEntry Entry.netDev rfl,
      Table.field_setEntry Entry.addr rfl, Table.field_setEntry Entry.pNext rfl⟩
  refine ⟨hsame, hok.shrink ⟨hsame, ?_, rfl, fun _ => List.Sublist.refl _⟩⟩
  have hheader : (t.setEntry e { t.content e with lastTime := now }).header = t.header :=
    Table.header_setEntry rfl
  unfold Table.PoolOk
  rw [hheader]
  exact hok.pool

/-- What a lookup that ends with `r` says about chain `k`. -/
structure Found (k : Bucket) (addr : MacAddr) (dev : Nat) (u : Table) (v : View)
    (r : Option Slot) : Prop where
  absent : r = none → ∀ e ∈ v.chain k, (u.content e).isGroup addr dev = false
  present : ∀ e, r = some e →
    (u.content e).valid = true ∧ (u.content e).isGroup addr dev = true

/-- An entry without its link. -/
def Entry.bare (x : Entry) : Entry := { x with pNext := none }

/-- The test of a lookup for an entry it passes. -/
def Entry.isStale (x : Entry) (now : BitVec 32) : Bool :=
  x.type == .mcatFilterDynamic &&
    BlockAck.rtmpTimeAfter now (x.lastTime + igmpmacTbEntryAgeoutTime)

@[simp] theorem Entry.isGroup_bare (x : Entry) : x.bare.isGroup addr dev = x.isGroup addr dev :=
  rfl

@[simp] theorem Entry.isStale_bare (x : Entry) (now : BitVec 32) :
    x.bare.isStale now = x.isStale now := rfl

@[simp] theorem Entry.valid_bare (x : Entry) : x.bare.valid = x.valid := rfl

/-- The entries that a lookup takes off the rest of its chain, which the clock reading
    `times n` comes first for: those it finds stale before it meets the group. -/
def Table.staleBefore (t : Table) (addr : MacAddr) (dev : Nat) (times : Nat → BitVec 32) :
    Nat → List Slot → List Slot
  | _, [] => []
  | n, e :: m =>
    if (t.content e).isGroup addr dev then []
    else if (t.content e).isStale (times n) then e :: t.staleBefore addr dev times (n + 1) m
    else t.staleBefore addr dev times (n + 1) m

theorem staleBefore_congr {times : Nat → BitVec 32} {m : List Slot}
    (h : ∀ e ∈ m, (u.content e).bare = (t.content e).bare) (n : Nat) :
    u.staleBefore addr dev times n m = t.staleBefore addr dev times n m := by
  induction m generalizing n with
  | nil => rfl
  | cons e m ih =>
    have he := h e mem_cons_self
    rw [Table.staleBefore, Table.staleBefore, ← Entry.isGroup_bare (u.content e),
      ← Entry.isStale_bare (u.content e), he, Entry.isGroup_bare, Entry.isStale_bare,
      ih fun e' he' => h e' (mem_cons_of_mem _ he')]

theorem mem_staleBefore {times : Nat → BitVec 32} {m : List Slot} {n : Nat}
    (he : e ∈ t.staleBefore addr dev times n m) :
    e ∈ m ∧ (t.content e).isGroup addr dev = false := by
  induction m generalizing n with
  | nil => cases he
  | cons a m ih =>
    rw [Table.staleBefore] at he
    split at he
    · cases he
    · next hgroup =>
      split at he
      · rcases mem_cons.mp he with rfl | hmem
        · exact ⟨mem_cons_self, Bool.not_eq_true _ ▸ hgroup⟩
        · exact ⟨mem_cons_of_mem _ (ih hmem).1, (ih hmem).2⟩
      · exact ⟨mem_cons_of_mem _ (ih he).1, (ih he).2⟩

/-- **Entries that were swept out**: they are cleared, their members are free, and but for
    links and the time stamp of the entry found all others are as they were. -/
structure Swept (t : Table) (v : View) (gone : List Slot) (u : Table) (v' : View)
    (found : Option Slot) : Prop where
  lists : v'.lists = gone.foldl Lists.released v.lists
  poolAddr : u.poolAddr = t.poolAddr
  cleared : ∀ e ∈ gone, (u.content e).valid = false
  kept : ∀ e, e ∉ gone → found ≠ some e → (u.content e).bare = (t.content e).bare

theorem Swept.refl (t : Table) (v : View) : Swept t v [] t v none :=
  ⟨rfl, rfl, by simp, fun _ _ _ => rfl⟩

theorem Swept.cons {w : Table} {v₁ v₂ : View} {gone : List Slot} {found : Option Slot}
    (h : Swept t v [e] u v₁ none) (hfew : Fewer u w) (h' : Swept u v₁ gone w v₂ found) :
    Swept t v (e :: gone) w v₂ found where
  lists := by
    rw [h'.lists, h.lists]
    rfl
  poolAddr := h'.poolAddr.trans h.poolAddr
  cleared e' he' := by
    rcases mem_cons.mp he' with rfl | hmem
    · -- what was cleared is not in use again
      by_contra hvalid
      have hback := hfew.valid e' (Bool.not_eq_false _ ▸ hvalid)
      rw [h.cleared e' (mem_singleton.mpr rfl)] at hback
      exact absurd hback (by simp)
    · exact h'.cleared e' hmem
  kept e' he' hfound := by
    rw [mem_cons, not_or] at he'
    rw [h'.kept e' he'.2 hfound, h.kept e' (by simpa using he'.1) (by simp)]

theorem bare_setNext (t : Table) (p : Slot) (q : Option Slot) (e : Slot) :
    ((t.setNext p q).content e).bare = (t.content e).bare := by
  by_cases he : e = p
  · subst he
    simp [Table.setNext, Entry.bare]
  · simp [Table.setNext, he]

theorem clearEntry_content (hrun : t.clearEntry e = some u) {e' : Slot} (he : e' ≠ e) :
    u.content e' = t.content e' := by
  simp only [Table.clearEntry, bind_eq_bind, bind_eq_some_iff, some.injEq] at hrun
  obtain ⟨w, hrest, rfl⟩ := hrun
  show (update w.content e _) e' = _
  rw [update_of_ne he]
  exact deleteIgmpMemberList_content hrest he

theorem removeEntry_bare {pPrev : Option Slot} (hrun : t.removeEntry k pPrev e = some u)
    {e' : Slot} (he : e' ≠ e) : (u.content e').bare = (t.content e').bare := by
  unfold Table.removeEntry at hrun
  split at hrun
  · exact congrArg Entry.bare (clearEntry_content hrun he)
  · split at hrun
    · cases hrun
    · rw [clearEntry_content hrun he]
      exact bare_setNext t _ _ e'

theorem removeEntry_passed {l m : List Slot} {pPrev : Option Slot} (hok : t.Ok v)
    (hk : v.chain k = l ++ e :: m) (hprev : l = [] ∨ pPrev = l.getLast?)
    (hvalid : (t.content e).valid = true)
    (hbehind : ∀ e' ∈ l, (t.content e').isGroup addr dev = false) :
    ∃ u v', t.removeEntry k pPrev e = some u ∧ u.Ok v' ∧ Fewer t u ∧ v'.chain k = l ++ m ∧
      (∀ e' ∈ l, (u.content e').isGroup addr dev = false) ∧ Swept t v [e] u v' none := by
  obtain ⟨u, hrun, hdrop⟩ := removeEntry_spec hok hk hprev
  have hok' := hdrop.ok hok hvalid
  have hfew := hdrop.fewer hok hvalid
  have hk' : (v.drop e (v.lists.released e)).chain k = l ++ m := by
    show (v.chain k).erase e = l ++ m
    rw [hk]
    exact erase_mid (hk ▸ hok.directory.nodup k)
  refine ⟨u, _, hrun, hok', hfew, hk', ?_, rfl, hdrop.poolAddr, ?_, ?_⟩
  · intro e' he'
    have hu : (u.content e').valid = true :=
      ((hok'.directory.mem k e').mp (by rw [hk']; simp [he'])).1
    rw [hfew.isGroup hu]
    exact hbehind e' he'
  · intro e' he'
    rw [mem_singleton.mp he']
    exact hdrop.gone
  · intro e' he' _
    exact removeEntry_bare hrun (by simpa using he')

theorem lookupLoop_spec (k : Bucket) (addr : MacAddr) (dev : Nat) (times : Nat → BitVec 32)
    (m : List Slot) :
    ∀ (l : List Slot) (fuel n : Nat) (t : Table) (v : View) (pPrev : Option Slot), t.Ok v →
      v.chain k = l ++ m → (l = [] ∨ pPrev = l.getLast?) →
      (∀ e ∈ l, (t.content e).isGroup addr dev = false) → m.length < fuel →
      ∃ u r v', Table.lookupLoop k addr dev times fuel n t pPrev m.head? = some (u, r) ∧
        u.Ok v' ∧ Fewer t u ∧ Found k addr dev u v' r ∧
        Swept t v (t.staleBefore addr dev times n m) u v' r := by
  induction m with
  | nil =>
    intro l fuel n t v pPrev hok hk _ hbehind hfuel
    obtain ⟨fuel, rfl⟩ := exists_eq_add_one_of_ne_zero (Nat.ne_zero_of_lt hfuel)
    refine ⟨t, none, v, rfl, hok, Fewer.refl t, ⟨?_, by simp⟩, Swept.refl t v⟩
    intro _ e he
    rw [hk, append_nil] at he
    exact hbehind e he
  | cons e m ih =>
    intro l fuel n t v pPrev hok hk hprev hbehind hfuel
    obtain ⟨fuel, rfl⟩ := exists_eq_add_one_of_ne_zero (Nat.ne_zero_of_lt hfuel)
    have hfuel' : m.length < fuel := by simpa using hfuel
    have hvalid : (t.content e).valid = true :=
      ((hok.directory.mem k e).mp (by rw [hk]; simp)).1
    rw [head?_cons, Table.lookupLoop, if_pos hvalid, Table.staleBefore]
    by_cases hgroup : (t.content e).isGroup addr dev = true
    · -- the entry looked for: only its time stamp changes
      rw [if_pos hgroup, if_pos hgroup]
      have htouch := hok.touch (e := e) (times n)
      refine ⟨_, some e, v, rfl, htouch.2, htouch.1.fewer, ⟨by simp, ?_⟩, rfl, rfl, by simp, ?_⟩
      · intro e' he'
        obtain rfl : e = e' := some.inj he'
        refine ⟨by simpa using hvalid, ?_⟩
        rw [Table.content_setEntry, update_self]
        exact hgroup
      · intro e' _ he'
        have hne : e' ≠ e := fun heq => he' (congrArg some heq.symm)
        rw [Table.content_setEntry, update_of_ne hne]
    rw [if_neg hgroup, if_neg hgroup]
    have hnotin : e ∉ m := by
      have hnd := hok.directory.nodup k
      rw [hk] at hnd
      exact (nodup_cons.mp (nodup_append.mp hnd).2.1).1
    by_cases haged : (t.content e).type = .mcatFilterDynamic ∧ BlockAck.rtmpTimeAfter (times n)
        ((t.content e).lastTime + igmpmacTbEntryAgeoutTime) = true
    · -- an aged entry is removed, and the walk goes on with the shorter chain
      have hstale : (t.content e).isStale (times n) = true := by
        simpa [Entry.isStale] using haged
      rw [if_pos haged, if_pos hstale]
      obtain ⟨u, v₁, hrun, hok', hfew, hk', hbehind', hswept⟩ :=
        removeEntry_passed hok hk hprev hvalid hbehind
      -- what is stale on the rest of the chain is so with the entry gone
      have hrest : u.staleBefore addr dev times (n + 1) m =
          t.staleBefore addr dev times (n + 1) m :=
        staleBefore_congr (fun e' he' =>
          hswept.kept e' (by simpa using ne_of_mem_of_not_mem he' hnotin) (by simp)) _
      by_cases hhead : some e = t.hash k
      · rw [if_pos hhead, hrun]
        have hl := (hok.directory.head_iff hk).mp hhead
        subst hl
        -- at the head the walk starts again at the new first entry
        have hstart : u.hash k = m.head? := by
          have hh := (hok'.directory.linked k).head
          rw [hk'] at hh
          simpa using hh
        obtain ⟨w, r, v', hrun', hokw, hfew', hfound, hswept'⟩ :=
          ih [] fuel (n + 1) u _ (u.hash k) hok' hk' (.inl rfl) (by simp) hfuel'
        rw [hrest] at hswept'
        refine ⟨w, r, v', ?_, hokw, hfew.trans hfew', hfound, hswept.cons hfew' hswept'⟩
        rw [← hstart] at hrun'
        exact hrun'
      · rw [if_neg hhead, hrun]
        have hl : l ≠ [] := fun h => hhead ((hok.directory.head_iff hk).mpr h)
        -- behind the head the predecessor has the link to go on with
        obtain ⟨l', p, hl'⟩ := (eq_nil_or_concat l).resolve_left hl
        rw [concat_eq_append] at hl'
        obtain rfl : pPrev = some p := by simpa [hl'] using hprev
        have hstart : (u.content p).pNext = m.head? :=
          hok'.directory.next_eq (l := l') (by rw [hk', hl']; simp)
        obtain ⟨w, r, v', hrun', hokw, hfew', hfound, hswept'⟩ :=
          ih l fuel (n + 1) u _ (some p) hok' hk' hprev hbehind' hfuel'
        rw [hrest] at hswept'
        refine ⟨w, r, v', ?_, hokw, hfew.trans hfew', hfound, hswept.cons hfew' hswept'⟩
        rw [← hstart] at hrun'
        exact hrun'
    -- any other entry is passed
    · have hstale : ¬ (t.content e).isStale (times n) = true := by
        simpa [Entry.isStale] using haged
      rw [if_neg haged, if_neg hstale, hok.directory.next_eq hk]
      have hbehind' : ∀ e' ∈ l ++ [e], (t.content e').isGroup addr dev = false := by
        intro e' he'
        rcases mem_append.mp he' with hmem | hmem
        · exact hbehind e' hmem
        · rw [mem_singleton.mp hmem]
          exact Bool.not_eq_true _ ▸ hgroup
      exact ih (l ++ [e]) fuel (n + 1) t v (some e) hok (by simpa using hk)
        (.inr (by simp)) hbehind' hfuel'

/-- **Lookup** keeps the invariant, adds no group, finds the group if it is there, and sweeps
    out what is stale before it. -/
theorem Table.Ok.lookup (hok : t.Ok v) (addr : MacAddr) (dev : Nat) (times : Nat → BitVec 32) :
    ∃ u r v', t.multicastFilterTableLookup addr dev times = some (u, r) ∧ u.Ok v' ∧
      Fewer t u ∧ Found (multicastAddrHashIndex addr) addr dev u v' r ∧
      Swept t v (t.staleBefore addr dev times 0 (v.chain (multicastAddrHashIndex addr)))
        u v' r := by
  have hstart := (hok.directory.linked (multicastAddrHashIndex addr)).head
  obtain ⟨u, r, v', hrun, hrest⟩ := lookupLoop_spec (multicastAddrHashIndex addr) addr dev
    times _ [] Table.walkFuel 0 t v (t.hash (multicastAddrHashIndex addr)) hok rfl (.inl rfl)
    (by simp) (hok.directory.length_lt _)
  rw [← hstart] at hrun
  exact ⟨u, r, v', hrun, hrest⟩

theorem Found.no_entry (hf : Found (multicastAddrHashIndex addr) addr dev u v none) (hok : u.Ok v)
    (he : (u.content e).valid = true) : (u.content e).isGroup addr dev = false := by
  by_contra hgroup
  have haddr := (Entry.isGroup_iff.mp (Bool.not_eq_false _ ▸ hgroup)).2
  have hmem : e ∈ v.chain (multicastAddrHashIndex addr) :=
    (hok.directory.mem _ e).mpr ⟨he, by rw [haddr]⟩
  exact hgroup (hf.absent rfl e hmem)

end

/-! ## Deletion -/

section

variable {v : View}

theorem deleteFind_spec (hok : t.Ok v) (k : Bucket) (addr : MacAddr) (dev : Nat) (m : List Slot) :
    ∀ (l : List Slot) (fuel : Nat) (pPrev : Option Slot), v.chain k = l ++ m →
      (l = [] ∨ pPrev = l.getLast?) → m.length < fuel →
      ∃ prev r, t.deleteFind addr dev fuel pPrev m.head? = some (prev, r) ∧
        ∀ e, r = some e → ∃ l' m', v.chain k = l' ++ e :: m' ∧
          (l' = [] ∨ prev = l'.getLast?) := by
  induction m with
  | nil =>
    intro l fuel pPrev _ _ hfuel
    obtain ⟨fuel, rfl⟩ := exists_eq_add_one_of_ne_zero (Nat.ne_zero_of_lt hfuel)
    exact ⟨pPrev, none, rfl, by simp⟩
  | cons e m ih =>
    intro l fuel pPrev hk hprev hfuel
    obtain ⟨fuel, rfl⟩ := exists_eq_add_one_of_ne_zero (Nat.ne_zero_of_lt hfuel)
    have hvalid : (t.content e).valid = true :=
      ((hok.directory.mem k e).mp (by rw [hk]; simp)).1
    rw [head?_cons, Table.deleteFind, if_pos hvalid]
    by_cases hgroup : (t.content e).isGroup addr dev = true
    · rw [if_pos hgroup]
      refine ⟨pPrev, some e, rfl, ?_⟩
      intro e' he'
      obtain rfl : e = e' := some.inj he'
      exact ⟨l, m, hk, hprev⟩
    -- the walk goes on, and this entry is the predecessor now
    · rw [if_neg hgroup, hok.directory.next_eq hk]
      exact ih (l ++ [e]) fuel (some e) (by simpa using hk) (.inr (by simp))
        (by simpa using hfuel)

theorem Table.Ok.deleteFound {l m : List Slot} {pPrev : Option Slot} (hok : t.Ok v)
    (member : Option MacAddr) (hk : v.chain k = l ++ e :: m) (hprev : l = [] ∨ pPrev = l.getLast?) :
    ∃ u v', t.deleteFound k member pPrev e = some u ∧ u.Ok v' ∧ Fewer t u := by
  have hvalid : (t.content e).valid = true :=
    ((hok.directory.mem k e).mp (by rw [hk]; simp)).1
  cases member with
  | none =>
    obtain ⟨u, hrun, hdrop⟩ := removeEntry_spec hok hk hprev
    exact ⟨u, _, hrun, hdrop.ok hok hvalid, hdrop.fewer hok hvalid⟩
  | some a =>
    obtain ⟨u, lists', hrun, hs⟩ := deleteIgmpMember_spec hok.pool e a
    have hoku := hok.shrink hs
    have hvalidu : (u.content e).valid = true := (hs.same.valid e).trans hvalid
    -- the group goes when its last station has left
    have hbranch : t.deleteFound k (some a) pPrev e =
        if 0 < u.igmpMemberCnt e then some u else u.removeEntry k pPrev e := by
      simp only [Table.deleteFound, hrun]
      rfl
    rw [hbranch]
    by_cases hcnt : 0 < u.igmpMemberCnt e
    · rw [if_pos hcnt]
      exact ⟨u, _, rfl, hoku, hs.same.fewer⟩
    · rw [if_neg hcnt]
      obtain ⟨w, hrun', hdrop⟩ := removeEntry_spec (k := k) hoku hk hprev
      exact ⟨w, _, hrun', hdrop.ok hoku hvalidu, hs.same.fewer.trans (hdrop.fewer hoku hvalidu)⟩

/-- **Deletion** keeps the invariant. -/
theorem Table.Ok.deleteEntry (hok : t.Ok v) (addr : MacAddr) (member : Option MacAddr) (dev : Nat) :
    ∃ u v', t.multicastFilterTableDeleteEntry addr member dev = some (u, true) ∧ u.Ok v' ∧
      Fewer t u := by
  have hstart := (hok.directory.linked (multicastAddrHashIndex addr)).head
  obtain ⟨prev, r, hrun, hfound⟩ := deleteFind_spec hok (multicastAddrHashIndex addr) addr dev _ []
    Table.walkFuel (t.hash (multicastAddrHashIndex addr)) rfl (.inl rfl)
    (hok.directory.length_lt _)
  rw [← hstart] at hrun
  cases r with
  | none =>
    exact ⟨t, v, by simp [Table.multicastFilterTableDeleteEntry, hrun], hok, Fewer.refl t⟩
  | some e =>
    obtain ⟨l, m, hk, hprev⟩ := hfound e rfl
    obtain ⟨u, v', hrun', hoku, hfew⟩ := hok.deleteFound member hk hprev
    exact ⟨u, v', by simp [Table.multicastFilterTableDeleteEntry, hrun, hrun'], hoku, hfew⟩

theorem Table.Ok.groupDelMember (hok : t.Ok v) (member : Option MacAddr) (dev : Nat)
    (i : Slot) : ∃ u, Table.groupDelMember member dev t i = some u ∧ ∃ v', u.Ok v' := by
  -- first the station leaves the group, then the group may go
  have hleave : ∃ u v', t.leaveGroup i member = some u ∧ u.Ok v' := by
    cases member with
    | none => exact ⟨t, v, rfl, hok⟩
    | some a =>
      obtain ⟨u, lists', hrun, hs⟩ := deleteIgmpMember_spec hok.pool i a
      exact ⟨u, _, hrun, hok.shrink hs⟩
  obtain ⟨u, v', hrun, hoku⟩ := hleave
  unfold Table.groupDelMember
  by_cases hvalid : (t.content i).valid = true
  · rw [if_pos hvalid, hrun]
    simp only [bind_eq_bind, bind_some]
    split
    · obtain ⟨w, v'', hdel, hokw, -⟩ := hoku.deleteEntry (u.content i).addr member dev
      exact ⟨w, by rw [hdel]; rfl, v'', hokw⟩
    · exact ⟨u, rfl, v', hoku⟩
  · rw [if_neg hvalid]
    exact ⟨t, rfl, v, hok⟩

/-- **A station that leaves all groups** keeps the invariant. -/
theorem Table.Ok.groupDelMembers (hok : t.Ok v) (member : Option MacAddr) (dev : Nat) :
    ∃ u, t.igmpGroupDelMembers member dev = some u ∧ ∃ v', u.Ok v' := by
  apply foldlM_invariant (finRange _) ?_ ⟨v, hok⟩
  intro t i ⟨v, hok⟩
  exact hok.groupDelMember member dev i

end

end RalinkSdk.IgmpSnoop
