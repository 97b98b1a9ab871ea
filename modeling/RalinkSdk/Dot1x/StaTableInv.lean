import RalinkSdk.Dot1x.StaTable

/-!
# The station table over whole runs

List, hash chains and counter agree after every run of calls.  The hash chain is searched by
address and the list by pointer; both meet the same station because no two stations have the
same address.
-/

namespace RalinkSdk.Dot1x

open Lib List Option Function

namespace StaTable

variable {t : StaTable} {l : List Nat} {p q sta : Nat} {s : StaNode}

/-! ## The fields of the stations -/

/-- The link of the list. -/
def next (t : StaTable) (p : Nat) : Option Nat := (t.heap p).bind StaNode.next

/-- The link of the hash chain. -/
def hnext (t : StaTable) (p : Nat) : Option Nat := (t.heap p).bind StaNode.hnext

def addrAt (t : StaTable) (p : Nat) : Option (BitVec 48) := (t.heap p).map StaNode.addr

/-- The hash chain on which a station belongs. -/
def bucket (t : StaTable) (p : Nat) : Option (BitVec 8) := (t.addrAt p).map staHashOf

/-- The table with a station written. -/
def put (t : StaTable) (p : Nat) (s : Option StaNode) : StaTable :=
  { t with heap := update t.heap p s }

theorem modify_eq (h : t.heap p = some s) (f : StaNode → StaNode) :
    t.modify p f = some (t.put p (some (f s))) := by
  simp [modify, put, h]

section

variable (t : StaTable) (p : Nat) (s : Option StaNode)

theorem next_put : (t.put p s).next = update t.next p (s.bind StaNode.next) := by
  funext q
  by_cases hq : q = p
  · simp [next, put, hq]
  · simp [next, put, hq]

theorem hnext_put : (t.put p s).hnext = update t.hnext p (s.bind StaNode.hnext) := by
  funext q
  by_cases hq : q = p
  · simp [hnext, put, hq]
  · simp [hnext, put, hq]

theorem addrAt_put : (t.put p s).addrAt = update t.addrAt p (s.map StaNode.addr) := by
  funext q
  by_cases hq : q = p
  · simp [addrAt, put, hq]
  · simp [addrAt, put, hq]

end

theorem bucket_eq (t : StaTable) (p : Nat) : t.bucket p = (t.addrAt p).map staHashOf := rfl

theorem put_hnext (h : t.heap p = some s) (r : Option Nat) :
    (t.put p (some { s with hnext := r })).next = t.next ∧
      (t.put p (some { s with hnext := r })).addrAt = t.addrAt ∧
      (t.put p (some { s with hnext := r })).hnext = update t.hnext p r := by
  refine ⟨?_, ?_, hnext_put t p _⟩
  · rw [next_put]
    exact update_eq_self_iff.mpr (by simp [next, h])
  · rw [addrAt_put]
    exact update_eq_self_iff.mpr (by simp [addrAt, h])

theorem put_next (h : t.heap p = some s) (r : Option Nat) :
    (t.put p (some { s with next := r })).hnext = t.hnext ∧
      (t.put p (some { s with next := r })).addrAt = t.addrAt ∧
      (t.put p (some { s with next := r })).next = update t.next p r := by
  refine ⟨?_, ?_, next_put t p _⟩
  · rw [hnext_put]
    exact update_eq_self_iff.mpr (by simp [hnext, h])
  · rw [addrAt_put]
    exact update_eq_self_iff.mpr (by simp [addrAt, h])

theorem heap_of_addrAt {a : BitVec 48} (h : t.addrAt p = some a) :
    ∃ s, t.heap p = some s ∧ s.addr = a :=
  map_eq_some_iff.mp h

theorem addrAt_isSome : (t.addrAt p).isSome = (t.heap p).isSome := by
  simp [addrAt]

/-! ## The invariant -/

/-- The list runs through the stations `l`, which are the allocated ones; each is on the hash
    chain of its address, once; no two have the same address; and they are counted. -/
structure Ok (t : StaTable) (l : List Nat) : Prop where
  list : Chain t.next t.staList l
  nodup : l.Nodup
  mem : ∀ p, p ∈ l ↔ (t.addrAt p).isSome
  hash : HashChains t.hnext t.staHash t.bucket
  distinct : ∀ p q a, t.addrAt p = some a → t.addrAt q = some a → p = q
  count : t.numSta = l.length
  count_le : t.numSta ≤ staCountLimit

theorem init_ok (ssidNum : Int) : (init ssidNum).Ok [] where
  list := rfl
  nodup := nodup_nil
  mem := by simp [init, addrAt]
  hash := HashChains.empty (fun _ => rfl) (fun _ => rfl)
  distinct := fun p q a h => by cases h
  count := rfl
  count_le := show (0 : Int) ≤ 1024 by decide

theorem Ok.length_lt (h : t.Ok l) : l.length < staWalkLimit := by
  have hcount := h.count
  have hle := h.count_le
  simp only [staCountLimit, staWalkLimit] at hle ⊢
  omega

theorem Ok.chain_length_lt (h : t.Ok l) {m : List Nat} {k : BitVec 8} (hnodup : m.Nodup)
    (hmem : ∀ p, p ∈ m ↔ t.bucket p = some k) : m.length < staWalkLimit := by
  refine lt_of_le_of_lt (List.Subperm.length_le ?_) h.length_lt
  apply subperm_of_subset hnodup
  intro p hp
  rw [h.mem p]
  have hbucket := (hmem p).mp hp
  rw [bucket_eq] at hbucket
  obtain ⟨a, ha, -⟩ := map_eq_some_iff.mp hbucket
  rw [ha]
  rfl

theorem bucket_of_addrAt {a : BitVec 48} (h : t.addrAt p = some a) :
    t.bucket p = some (staHashOf a) := by
  rw [bucket_eq, h]
  rfl

theorem Ok.readable (h : t.Ok l) {m : List Nat} {k : BitVec 8}
    (hmem : ∀ p ∈ m, t.bucket p = some k) {a : BitVec 48} (hp : t.addrAt p = some a) (hpm : p ∉ m) :
    ∀ j ∈ m, ∃ s, t.heap j = some s ∧ decide (s.addr = a) = false := by
  intro j hj
  have hb := hmem j hj
  rw [bucket_eq] at hb
  obtain ⟨b, hjb, -⟩ := map_eq_some_iff.mp hb
  obtain ⟨s, hs, hsb⟩ := heap_of_addrAt hjb
  refine ⟨s, hs, decide_eq_false ?_⟩
  intro hsa
  have hja : t.addrAt j = some a := by rw [hjb, ← hsb, hsa]
  exact hpm (h.distinct p j a hp hja ▸ hj)

/-! ## Looking for an address -/

/-- **Lookup** finds the station of an address. -/
theorem Ok.staByAddr_of_mem (h : t.Ok l) {sa : BitVec 48} (hp : t.addrAt p = some sa) :
    t.staByAddr sa = some (some p) := by
  obtain ⟨m, hchain, hnodup, hmem⟩ := h.hash (staHashOf sa)
  obtain ⟨s, hs, hsa⟩ := heap_of_addrAt hp
  obtain ⟨front, back, rfl⟩ := append_of_mem ((hmem p).mpr (bucket_of_addrAt hp))
  have hlen := h.chain_length_lt hnodup hmem
  have hfront : p ∉ front := by
    have hmid := nodup_middle.mp hnodup
    rw [nodup_cons] at hmid
    exact fun hmem => hmid.1 (mem_append_left _ hmem)
  have hread := h.readable (fun j hj => (hmem j).mp (mem_append_left _ hj)) hp hfront
  have hshort : front.length < staWalkLimit := by
    rw [length_append] at hlen
    omega
  have hfollow : follow t.heap StaNode.hnext (fun _ s => s.addr = sa) staWalkLimit none
      (t.staHash (staHashOf sa)) = some (front.getLast?.or none, some p) :=
    follow_found hchain hread hs (decide_eq_true hsa) hshort
  rw [staByAddr, hfollow]
  rfl

/-- **Lookup** of an address without a station. -/
theorem Ok.staByAddr_of_not_mem (h : t.Ok l) {sa : BitVec 48} (hnone : ∀ p, t.addrAt p ≠ some sa) :
    t.staByAddr sa = some none := by
  obtain ⟨m, hchain, hnodup, hmem⟩ := h.hash (staHashOf sa)
  have hread : ∀ j ∈ m, ∃ s, t.heap j = some s ∧ decide (s.addr = sa) = false := by
    intro j hj
    have hb := (hmem j).mp hj
    rw [bucket_eq] at hb
    obtain ⟨b, hjb, -⟩ := map_eq_some_iff.mp hb
    obtain ⟨s, hs, rfl⟩ := heap_of_addrAt hjb
    exact ⟨s, hs, decide_eq_false fun heq => hnone j (by rw [hjb, heq])⟩
  have hfollow : follow t.heap StaNode.hnext (fun _ s => s.addr = sa) staWalkLimit none
      (t.staHash (staHashOf sa)) = some (m.getLast?.or none, none) :=
    follow_not_found hchain hread (h.chain_length_lt hnodup hmem)
  rw [staByAddr, hfollow]
  rfl

/-! ## A new station -/

/-- **A station joins** the list and its hash chain. -/
theorem Ok.add (h : t.Ok l) (hp : t.heap p = none) (node : StaNode)
    (hnone : ∀ q, t.addrAt q ≠ some node.addr) (hnext : node.next = t.staList)
    (hroom : t.numSta < staCountLimit) : ∃ t', StaTable.apStaHashAdd { t.put p (some node) with
        staList := some p, numSta := t.numSta + 1 } p = some t' ∧ t'.Ok (p :: l) := by
  have haddr : t.addrAt p = none := by simp [addrAt, hp]
  have hpl : p ∉ l := by
    rw [h.mem p, haddr]
    simp
  let k := staHashOf node.addr
  let final := t.put p (some { node with hnext := t.staHash k })
  refine ⟨{ final with
    staList := some p
    numSta := t.numSta + 1
    staHash := update t.staHash k (some p) }, ?_, ?_⟩
  · simp [apStaHashAdd, modify, put, final, k]
  have hnextf : final.next = update t.next p t.staList := by
    rw [next_put]
    simp [hnext]
  have hhnextf : final.hnext = update t.hnext p (t.staHash k) := hnext_put t p _
  have haddrf : final.addrAt = update t.addrAt p (some node.addr) := addrAt_put t p _
  have hbucketf : final.bucket = update t.bucket p (some k) := by
    funext q
    rw [bucket_eq, haddrf]
    by_cases hq : q = p
    · simp [hq, k]
    · simp [hq, bucket_eq]
  refine ⟨?_, nodup_cons.mpr ⟨hpl, h.nodup⟩, ?_, ?_, ?_, ?_, ?_⟩
  · show Chain final.next (some p) (p :: l)
    rw [hnextf]
    refine ⟨rfl, ?_⟩
    rw [update_self]
    exact h.list.update_of_not_mem hpl _
  · intro q
    show _ ↔ (final.addrAt q).isSome
    rw [haddrf]
    by_cases hq : q = p
    · simp [hq]
    · simp [hq, h.mem q]
  · show HashChains final.hnext _ final.bucket
    rw [hbucketf, hhnextf]
    apply h.hash.push (by rw [bucket_eq, haddr]; rfl) k
    · simp
    · intro j hj
      simp [hj]
  · intro q q' a hq hq'
    replace hq : final.addrAt q = some a := hq
    replace hq' : final.addrAt q' = some a := hq'
    rw [haddrf] at hq hq'
    by_cases hqp : q = p
    · by_cases hqp' : q' = p
      · rw [hqp, hqp']
      · -- nobody else has the address
        subst hqp
        rw [update_self] at hq
        rw [update_of_ne hqp'] at hq'
        exact absurd (hq'.trans hq.symm) (hnone q')
    · rw [update_of_ne hqp] at hq
      by_cases hqp' : q' = p
      · subst hqp'
        rw [update_self] at hq'
        exact absurd (hq.trans hq'.symm) (hnone q)
      · rw [update_of_ne hqp'] at hq'
        exact h.distinct q q' a hq hq'
  · show t.numSta + 1 = _
    simp [h.count]
  · show t.numSta + 1 ≤ staCountLimit
    omega

/-- **`Ap_get_sta`** keeps the table consistent. -/
theorem Ok.apGetSta (h : t.Ok l) (sa : BitVec 48) (apIdx : BitVec 8) (ethertype : BitVec 16)
    (sock : Int) (choice : Option Nat) :
    ∃ r t' l', t.apGetSta sa apIdx ethertype sock choice = some (r, t') ∧ t'.Ok l' := by
  by_cases hmem : ∃ p, t.addrAt p = some sa
  · obtain ⟨p, hp⟩ := hmem
    exact ⟨some p, t, l, by simp [StaTable.apGetSta, h.staByAddr_of_mem hp], h⟩
  · have hnone : ∀ p, t.addrAt p ≠ some sa := fun p hp => hmem ⟨p, hp⟩
    have hlookup := h.staByAddr_of_not_mem hnone
    by_cases hfull : staCountLimit ≤ t.numSta
    · exact ⟨none, t, l, by simp [StaTable.apGetSta, hlookup, hfull], h⟩
    · cases hm : t.malloc choice with
      | none => exact ⟨none, t, l, by simp [StaTable.apGetSta, hlookup, hfull, hm], h⟩
      | some p =>
        have hfree : t.heap p = none := by
          obtain ⟨-, hp⟩ := filter_eq_some_iff.mp hm
          simpa using hp
        let node : StaNode := ⟨t.staList, none, sa, -1, ethertype,
          if 1 < t.ssidNum then apIdx else 0, sock⟩
        obtain ⟨t', hadd, hok⟩ := h.add hfree node hnone rfl (by omega)
        refine ⟨some p, t', p :: l, ?_, hok⟩
        simp only [StaTable.apGetSta, hlookup, hm, if_neg hfull, bind, bind_some]
        exact congrArg (fun r => Option.bind r fun t => some (some p, t)) hadd

/-! ## A station leaves -/

/-- What taking a station off its hash chain leaves as it is. -/
structure OffHash (t t' : StaTable) (sta : Nat) : Prop where
  next : t'.next = t.next
  addrAt : t'.addrAt = t.addrAt
  staList : t'.staList = t.staList
  numSta : t'.numSta = t.numSta
  hash : HashChains t'.hnext t'.staHash (update t.bucket sta none)

/-- **`Ap_sta_hash_del`** takes the station off, although it looks for its address. -/
theorem Ok.apStaHashDel (h : t.Ok l) (hs : t.heap sta = some s) :
    ∃ t', t.apStaHashDel sta = some t' ∧ OffHash t t' sta := by
  have hsta : t.addrAt sta = some s.addr := by simp [StaTable.addrAt, hs]
  obtain ⟨m, hchain, hnodup, hmem⟩ := h.hash (staHashOf s.addr)
  obtain ⟨front, back, rfl⟩ := append_of_mem ((hmem sta).mpr (bucket_of_addrAt hsta))
  have hlen := h.chain_length_lt hnodup hmem
  cases front with
  | nil =>
    -- the station is the first of its chain
    have hhead : t.staHash (staHashOf s.addr) = some sta := hchain.1
    refine ⟨{ t with staHash := update t.staHash (staHashOf s.addr) s.hnext }, ?_, ?_⟩
    · simp [StaTable.apStaHashDel, hs, hhead]
    · refine ⟨rfl, rfl, rfl, rfl, ?_⟩
      have hunlink := h.hash.unlink_head hchain
      have hlink : t.hnext sta = s.hnext := by simp [hnext, hs]
      rw [hlink] at hunlink
      exact hunlink
  | cons a front =>
    have hhead : t.staHash (staHashOf s.addr) = some a := hchain.1
    have hout : sta ∉ a :: front := by
      have hmid := nodup_middle.mp hnodup
      rw [nodup_cons] at hmid
      exact fun hm => hmid.1 (mem_append_left _ hm)
    have hread := h.readable (fun j hj => (hmem j).mp (mem_append_left _ hj)) hsta hout
    obtain ⟨e, he, hea⟩ := hread a mem_cons_self
    have hrest : Chain t.hnext e.hnext (front ++ sta :: back) := by
      have hlink : t.hnext a = e.hnext := by simp [hnext, he]
      exact hlink ▸ hchain.2
    -- the walk starts behind the first node
    have hshort : front.length < staWalkLimit := by
      simp at hlen
      omega
    have hfollow : follow t.heap StaNode.hnext (fun _ e => e.addr = s.addr) staWalkLimit (some a)
        e.hnext = some (front.getLast?.or (some a), some sta) :=
      follow_found hrest (fun j hj => hread j (mem_cons_of_mem a hj)) hs
        (decide_eq_true rfl) hshort
    obtain ⟨init, last, hsplit⟩ : ∃ init last, a :: front = init ++ [last] :=
      ⟨_, _, (dropLast_append_getLast (cons_ne_nil a front)).symm⟩
    have hlast : front.getLast?.or (some a) = some last := by
      have hget : (a :: front).getLast? = some last := by simp [hsplit]
      cases front with
      | nil => simpa using hget
      | cons b front => simpa [getLast?_cons] using hget
    obtain ⟨x, hx, -⟩ := hread last (by simp [hsplit])
    refine ⟨t.put last (some { x with hnext := s.hnext }), ?_, ?_⟩
    · rw [hlast] at hfollow
      simp only [StaTable.apStaHashDel, hs, hhead, he, bind, bind_some,
        if_neg (of_decide_eq_false hea), hfollow]
      exact modify_eq hx _
    · obtain ⟨hnext', haddr', hhnext'⟩ := put_hnext hx s.hnext
      refine ⟨hnext', haddr', rfl, rfl, ?_⟩
      have hchain' : Chain t.hnext (t.staHash (staHashOf s.addr)) (init ++ last :: sta :: back) := by
        rw [hsplit] at hchain
        simpa using hchain
      have hunlink := h.hash.unlink hchain'
      have hlink : t.hnext sta = s.hnext := by simp [hnext, hs]
      rw [hlink] at hunlink
      rw [hhnext']
      exact hunlink

/-- What taking a station off the list leaves as it is. -/
structure OffList (t t' : StaTable) (l' : List Nat) : Prop where
  hnext : t'.hnext = t.hnext
  addrAt : t'.addrAt = t.addrAt
  staHash : t'.staHash = t.staHash
  numSta : t'.numSta = t.numSta
  list : Chain t'.next t'.staList l'

/-- **`Ap_sta_list_del`** takes the station off the list. -/
theorem apStaListDel_spec {front back : List Nat}
    (hchain : Chain t.next t.staList (front ++ sta :: back)) (hnodup : (front ++ sta :: back).Nodup)
    (hread : ∀ p ∈ front ++ sta :: back, ∃ s, t.heap p = some s)
    (hlen : (front ++ sta :: back).length < staWalkLimit) :
    ∃ t', t.apStaListDel sta = some t' ∧ OffList t t' (front ++ back) := by
  obtain ⟨s, hs⟩ := hread sta (by simp)
  have hlink : t.next sta = s.next := by simp [next, hs]
  rcases eq_nil_or_concat front with rfl | ⟨init, last, rfl⟩
  · -- the station is the first of the list
    refine ⟨{ t with staList := s.next }, ?_, ⟨rfl, rfl, rfl, rfl, ?_⟩⟩
    · have hhead : t.staList = some sta := hchain.1
      simp [apStaListDel, hs, hhead]
    · exact hlink ▸ hchain.2
  · have hsplit : init.concat last ++ sta :: back = init ++ last :: sta :: back := by simp
    rw [hsplit] at hchain hnodup hread hlen
    obtain ⟨e, he⟩ := hread last (by simp)
    -- only the station before it links to it
    have hprev : ∀ j ∈ init, ∃ e, t.heap j = some e ∧ decide (e.next = some sta) = false := by
      intro j hj
      obtain ⟨e', he'⟩ := hread j (by simp [hj])
      refine ⟨e', he', decide_eq_false ?_⟩
      intro hlink'
      have hj' : t.next j = some sta := by simp [next, he', hlink']
      obtain ⟨pre, post, rfl⟩ := append_of_mem hj
      obtain ⟨q, -, hq⟩ := chain_append.mp (by simpa using hchain :
        Chain t.next t.staList (pre ++ j :: (post ++ last :: sta :: back)))
      have hhead := Chain.head hq.2
      rw [hj'] at hhead
      cases post with
      | nil =>
        obtain rfl : sta = last := by simpa using hhead
        simp [nodup_append] at hnodup
      | cons b post =>
        obtain rfl : sta = b := by simpa using hhead
        simp [nodup_append] at hnodup
    have hlast : e.next = some sta := by
      obtain ⟨q, -, hq⟩ := chain_append.mp hchain
      have hhead := hq.2.1
      simpa [next, he] using hhead
    have hfirst : t.staList ≠ some sta := by
      intro heq
      rw [Chain.head hchain] at heq
      cases init with
      | nil =>
        obtain rfl : last = sta := by simpa using heq
        simp at hnodup
      | cons b init =>
        obtain rfl : b = sta := by simpa using heq
        simp at hnodup
    have hshort : init.length < staWalkLimit := by
      rw [length_append] at hlen
      omega
    have hfollow : follow t.heap StaNode.next (fun _ e => e.next = some sta) staWalkLimit none
        t.staList = some (init.getLast?.or none, some last) :=
      follow_found hchain hprev he (decide_eq_true hlast) hshort
    refine ⟨t.put last (some { e with next := s.next }), ?_, ?_⟩
    · simp only [apStaListDel, hs, bind, bind_some, if_neg hfirst, hfollow]
      exact modify_eq he _
    · obtain ⟨hhnext', haddr', hnext'⟩ := put_next he s.next
      refine ⟨hhnext', haddr', rfl, rfl, ?_⟩
      rw [hnext', ← hlink]
      have hunlink := hchain.unlink hnodup
      rw [show init.concat last ++ back = init ++ last :: back by simp]
      exact hunlink

theorem Ok.without {front back : List Nat} (h : t.Ok (front ++ sta :: back)) {u : StaTable}
    (haddr : u.addrAt = update t.addrAt sta none)
    (hlist : Chain u.next u.staList (front ++ back))
    (hhash : HashChains u.hnext u.staHash u.bucket) (hnum : u.numSta = t.numSta - 1) :
    u.Ok (front ++ back) := by
  have hout : sta ∉ front ++ back ∧ (front ++ back).Nodup := by
    have hmid := nodup_middle.mp h.nodup
    rwa [nodup_cons] at hmid
  have hother : ∀ {p : Nat} {a}, u.addrAt p = some a → t.addrAt p = some a := by
    intro p a hp
    rw [haddr] at hp
    have hps : p ≠ sta := by
      rintro rfl
      simp at hp
    rwa [update_of_ne hps] at hp
  refine ⟨hlist, hout.2, ?_, hhash, ?_, ?_, ?_⟩
  · intro p
    rw [haddr]
    by_cases hp : p = sta
    · subst hp
      simpa using hout.1
    · rw [update_of_ne hp, ← h.mem p]
      simp [hp]
  · intro p q a hp hq
    exact h.distinct p q a (hother hp) (hother hq)
  · rw [hnum, h.count]
    simp only [length_append, length_cons, Nat.cast_add, Nat.cast_one]
    omega
  · have hle := h.count_le
    omega

/-- **`Ap_free_sta`** keeps the table consistent. -/
theorem Ok.apFreeSta (h : t.Ok l) {front back : List Nat} (hl : l = front ++ sta :: back) :
    ∃ t', t.apFreeSta sta = some t' ∧ t'.Ok (front ++ back) ∧
      ∀ p, p ≠ sta → t'.addrAt p = t.addrAt p := by
  subst hl
  have hread : ∀ p ∈ front ++ sta :: back, ∃ s, t.heap p = some s := by
    intro p hp
    have hsome := (h.mem p).mp hp
    rw [addrAt_isSome] at hsome
    exact isSome_iff_exists.mp hsome
  obtain ⟨s, hs⟩ := hread sta (by simp)
  obtain ⟨t₁, hhash, h₁⟩ := h.apStaHashDel hs
  have hread₁ : ∀ p ∈ front ++ sta :: back, ∃ s, t₁.heap p = some s := by
    intro p hp
    have hsome := (h.mem p).mp hp
    rw [← h₁.addrAt, addrAt_isSome] at hsome
    exact isSome_iff_exists.mp hsome
  have hchain₁ : Chain t₁.next t₁.staList (front ++ sta :: back) := by
    rw [h₁.next, h₁.staList]
    exact h.list
  obtain ⟨t₂, hlist, h₂⟩ := apStaListDel_spec hchain₁ h.nodup hread₁ h.length_lt
  have hout : sta ∉ front ++ back := (nodup_cons.mp (nodup_middle.mp h.nodup)).1
  have haddr : (t₂.put sta none).addrAt = update t.addrAt sta none := by
    rw [addrAt_put, h₂.addrAt, h₁.addrAt]
    rfl
  have hbucket : (t₂.put sta none).bucket = update t.bucket sta none := by
    funext q
    rw [bucket_eq, haddr]
    by_cases hq : q = sta
    · simp [hq]
    · simp [hq, bucket_eq]
  refine ⟨{ t₂.put sta none with numSta := t₂.numSta - 1 }, ?_, ?_, ?_⟩
  · simp only [StaTable.apFreeSta, hhash, hlist, bind, bind_some]
    rfl
  · refine h.without (show addrAt _ = _ from haddr) ?_ ?_ ?_
    · show Chain (t₂.put sta none).next t₂.staList _
      rw [next_put]
      exact h₂.list.update_of_not_mem hout _
    · show HashChains (t₂.put sta none).hnext t₂.staHash (t₂.put sta none).bucket
      rw [hbucket, h₂.staHash, hnext_put, h₂.hnext]
      apply h₁.hash.congr
      intro i hi
      have hne : i ≠ sta := by
        rintro rfl
        simp at hi
      exact update_of_ne hne _ _
    · show t₂.numSta - 1 = _
      rw [h₂.numSta, h₁.numSta]
  · intro p hp
    show (t₂.put sta none).addrAt p = _
    rw [haddr, update_of_ne hp]

theorem Ok.freeLoop (h : t.Ok l) {fuel : Nat} (hfuel : l.length < fuel) :
    ∃ t', StaTable.freeLoop fuel t.staList t = some t' ∧ t'.Ok [] := by
  induction l generalizing t fuel with
  | nil =>
    obtain ⟨n, rfl⟩ : ∃ n, fuel = n + 1 := ⟨fuel - 1, by simp at hfuel; omega⟩
    have hnull : t.staList = none := h.list
    exact ⟨t, by rw [hnull]; rfl, h⟩
  | cons sta l ih =>
    obtain ⟨n, rfl⟩ : ∃ n, fuel = n + 1 := ⟨fuel - 1, by simp at hfuel; omega⟩
    obtain ⟨t₁, hfree, h₁, -⟩ := h.apFreeSta (nil_append (sta :: l)).symm
    have hsome := (h.mem sta).mp mem_cons_self
    rw [addrAt_isSome] at hsome
    obtain ⟨s, hs⟩ := isSome_iff_exists.mp hsome
    have hhead : t.staList = some sta := h.list.1
    -- the link that was read before the station was freed leads to the rest of the list
    have hrest : s.next = t₁.staList := by
      have hold : t.next sta = l.head? := Chain.head h.list.2
      have hnew : t₁.staList = l.head? := Chain.head h₁.list
      rw [hnew, ← hold]
      simp [next, hs]
    obtain ⟨t', hloop, hok⟩ := ih h₁ (by simpa using hfuel)
    refine ⟨t', ?_, hok⟩
    rw [hhead]
    simp [StaTable.freeLoop, hs, hfree, hrest, hloop]

/-- **`Apd_free_stas`** leaves an empty table. -/
theorem Ok.apdFreeStas (h : t.Ok l) : ∃ t', t.apdFreeStas = some t' ∧ t'.Ok [] :=
  h.freeLoop h.length_lt

end StaTable

/-! ## Runs -/

def FreesStation (t : StaTable) : StaCall → Prop
  | .freeSta sta => (t.heap sta).isSome
  | _ => True

instance instDecidableFreesStation (t : StaTable) : (c : StaCall) → Decidable (FreesStation t c)
  | .freeSta sta => inferInstanceAs (Decidable ((t.heap sta).isSome = true))
  | .getSta .. => isTrue trivial
  | .freeStas => isTrue trivial

theorem StaTable.Ok.call {t : StaTable} {l : List Nat} (h : t.Ok l) {c : StaCall}
    (hc : FreesStation t c) : ∃ t' l', t.call c = some t' ∧ t'.Ok l' := by
  cases c with
  | getSta sa apIdx ethertype sock choice =>
    obtain ⟨r, t', l', hget, hok⟩ := h.apGetSta sa apIdx ethertype sock choice
    exact ⟨t', l', by simp [StaTable.call, hget], hok⟩
  | freeSta sta =>
    have hmem : sta ∈ l := by
      rw [h.mem sta, StaTable.addrAt_isSome]
      exact hc
    obtain ⟨front, back, hl⟩ := append_of_mem hmem
    obtain ⟨t', hfree, hok, -⟩ := h.apFreeSta hl
    exact ⟨t', front ++ back, hfree, hok⟩
  | freeStas =>
    obtain ⟨t', hfree, hok⟩ := h.apdFreeStas
    exact ⟨t', [], hfree, hok⟩

/-- **Station table**: after every run of calls that frees only stations of the table, the list
    and the hash chains hold the same stations, each once and on the chain of its own address,
    the addresses are distinct, and `num_sta` is their number, at most `MAX_STA_COUNT`. -/
theorem station_table_run (ssidNum : Int) (cs : List StaCall)
    (hrun : Along (stepM StaTable.call) (OnSome FreesStation) (some (StaTable.init ssidNum)) cs) :
    ∃ t l, runEvents (stepM StaTable.call) (some (StaTable.init ssidNum)) cs = some t ∧ t.Ok l := by
  have h0 : ∃ t l, some (StaTable.init ssidNum) = some t ∧ t.Ok l :=
    ⟨_, [], rfl, StaTable.init_ok ssidNum⟩
  have hstep : ∀ s c, (∃ t l, s = some t ∧ StaTable.Ok t l) → OnSome FreesStation s c →
      ∃ t l, stepM StaTable.call s c = some t ∧ t.Ok l := by
    rintro _ c ⟨t, l, rfl, hok⟩ hc
    exact hok.call (onSome_some.mp hc)
  exact hrun.invariant hstep h0

/-- Two stations on one hash chain join, and the one in the middle of the list leaves. -/
def threeStations : List StaCall :=
  [.getSta 0x101 0 0x888E 3 (some 10), .getSta 0x201 0 0x888E 3 (some 20),
    .getSta 0x302 0 0x888E 3 (some 30), .getSta 0x101 0 0x888E 3 none, .freeSta 20]

theorem station_table_three_stations :
    ∃ t l, runEvents (stepM StaTable.call) (some (StaTable.init 1)) threeStations = some t ∧
      t.Ok l :=
  station_table_run 1 threeStations (by decide +kernel)

end RalinkSdk.Dot1x
