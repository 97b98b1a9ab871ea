import RalinkSdk.Mat.MacTable

/-!
# The address tables keep their shape

Whatever is updated and looked up, and however memory runs out, every node is on the chain of
its address, once, and no call follows a pointer to freed memory.  `Walked` says what the walk of
an update does with the nodes that it sees.
-/

namespace RalinkSdk.Mat

open List Option Function Nat
open IgmpSnoop (MacAddr)
open Lib

namespace MacTable

variable {α : Type}

/-- The links of the nodes. -/
def next (t : MacTable α) (p : Node) : Option Node := (t.node p).bind (·.pNext)

def addrOf (t : MacTable α) (p : Node) : Option α := (t.node p).map (·.addr)

/-- The chain of a node; node 0 is that of the broadcast address. -/
def bucket (P : MatProto α) (t : MacTable α) (p : Node) : Option Bucket :=
  (t.node p).map fun x => if p = 0 then hashIndexOfBcast else (P.hashIndex x.addr).castSucc

/-- **The shape of a table.** -/
structure Ok (P : MatProto α) (t : MacTable α) : Prop where
  valid : t.valid = true
  chains : HashChains t.next t.hash (t.bucket P)
  fresh : ∀ p x, t.node p = some x → p < t.fresh
  bcast : ∃ x, t.node 0 = some x ∧ x.macAddr = broadcastAddr

variable {P : MatProto α} {t u w : MacTable α} {k : Bucket} {p e : Node} {x y : MacMappingEntry α}
  {l m pre : List Node}

theorem macTableInit_node (zero : α) {p : Node} (hp : p ≠ 0) :
    (macTableInit zero).node p = none := by
  simp [macTableInit, hp]

theorem ok_init (P : MatProto α) (zero : α) : (macTableInit zero).Ok P := by
  refine ⟨rfl, ?_, ?_, ⟨⟨zero, broadcastAddr, 0, none⟩, rfl, rfl⟩⟩
  · intro k
    by_cases hk : k = hashIndexOfBcast
    · subst hk
      refine ⟨[0], ⟨rfl, rfl⟩, nodup_singleton 0, ?_⟩
      intro p
      rw [mem_singleton]
      constructor
      · rintro rfl
        rfl
      · intro hp
        by_contra hne
        rw [bucket, macTableInit_node zero hne] at hp
        cases hp
    · refine ⟨[], by simp [macTableInit, hk], nodup_nil, ?_⟩
      intro p
      refine iff_of_false not_mem_nil ?_
      by_cases hp : p = 0
      · subst hp
        exact fun heq => hk (some.inj heq).symm
      · rw [bucket, macTableInit_node zero hp]
        simp
  · intro p x hx
    by_cases hp : p = 0
    · exact hp ▸ Nat.one_pos
    · rw [macTableInit_node zero hp] at hx
      cases hx

/-! ## Nodes on a chain -/

theorem Ok.mem_iff (h : t.Ok P) (hchain : Chain t.next (t.hash k) l) :
    e ∈ l ↔ t.bucket P e = some k := by
  obtain ⟨l', hl', -, hmem⟩ := h.chains k
  rw [hchain.unique hl']
  exact hmem e

theorem Ok.nodup (h : t.Ok P) (hchain : Chain t.next (t.hash k) l) : l.Nodup := by
  obtain ⟨l', hl', hnodup, -⟩ := h.chains k
  rw [hchain.unique hl']
  exact hnodup

theorem Ok.exists_node (h : t.Ok P) (hchain : Chain t.next (t.hash k) l) (he : e ∈ l) :
    ∃ x, t.node e = some x := by
  have hbucket := (h.mem_iff hchain).mp he
  obtain ⟨x, hx, -⟩ := map_eq_some_iff.mp hbucket
  exact ⟨x, hx⟩

theorem Ok.ne_zero {i : Fin matMaxHashEntrySupport} (h : t.Ok P)
    (hchain : Chain t.next (t.hash i.castSucc) l) (he : e ∈ l) : e ≠ 0 := by
  rintro rfl
  have hbucket := (h.mem_iff hchain).mp he
  obtain ⟨x, hx, -⟩ := h.bcast
  simp only [bucket, hx, map_some, if_true, some.injEq] at hbucket
  exact absurd hbucket.symm (Fin.castSucc_lt_last i).ne

theorem Ok.eq_zero (h : t.Ok P) (hchain : Chain t.next (t.hash hashIndexOfBcast) l)
    (he : e ∈ l) : e = 0 := by
  have hbucket := (h.mem_iff hchain).mp he
  obtain ⟨x, -, hx⟩ := map_eq_some_iff.mp hbucket
  by_contra hne
  rw [if_neg hne] at hx
  exact absurd hx (Fin.castSucc_lt_last _).ne

theorem Ok.hash_bcast (h : t.Ok P) : t.hash hashIndexOfBcast = some 0 := by
  obtain ⟨l, hchain, -, hmem⟩ := h.chains hashIndexOfBcast
  obtain ⟨b, hb, -⟩ := h.bcast
  have hzero : 0 ∈ l := (hmem 0).mpr (by rw [bucket, hb]; rfl)
  rw [hchain.head]
  cases l with
  | nil => cases hzero
  | cons e l => rw [head?_cons, h.eq_zero hchain mem_cons_self]

theorem Ok.length_lt (h : t.Ok P) (hchain : Chain t.next (t.hash k) l) : l.length < t.walkFuel := by
  have hsub : l ⊆ range t.fresh := by
    intro e he
    obtain ⟨x, hx⟩ := h.exists_node hchain he
    exact mem_range.mpr (h.fresh e x hx)
  have hlen := ((h.nodup hchain).subperm hsub).length_le
  rw [length_range] at hlen
  exact lt_succ_of_le hlen

theorem next_eq_of_chain (hchain : Chain t.next (t.hash k) (pre ++ e :: m))
    (hx : t.node e = some x) : x.pNext = m.head? := by
  obtain ⟨r, -, -, hrest⟩ := chain_append.mp hchain
  have hnext : t.next e = x.pNext := by rw [next, hx]; rfl
  rw [← hnext]
  exact Chain.head hrest

/-! ## Steps -/

theorem Ok.touch (h : t.Ok P) (hx : t.node e = some x) (haddr : y.addr = x.addr)
    (hnext : y.pNext = x.pNext) (hmac : e = 0 → y.macAddr = x.macAddr) :
    (t.setNode e (some y)).Ok P ∧ (t.setNode e (some y)).next = t.next := by
  -- neither links nor chains depend on what is written
  have hsame : (t.setNode e (some y)).next = t.next := by
    funext q
    by_cases hq : q = e
    · subst hq
      simp [next, setNode, hx, hnext]
    · simp [next, setNode, hq]
  have hbucket : (t.setNode e (some y)).bucket P = t.bucket P := by
    funext q
    by_cases hq : q = e
    · subst hq
      simp [bucket, setNode, hx, haddr]
    · simp [bucket, setNode, hq]
  refine ⟨⟨h.valid, ?_, ?_, ?_⟩, hsame⟩
  · rw [hsame, hbucket]
    exact h.chains
  · intro q z hz
    by_cases hq : q = e
    · subst hq
      exact h.fresh q x hx
    · exact h.fresh q z (by simpa [setNode, hq] using hz)
  · obtain ⟨b, hb, hbmac⟩ := h.bcast
    by_cases he : e = 0
    · subst he
      obtain rfl := some.inj (hx.symm.trans hb)
      exact ⟨y, by simp [setNode], (hmac rfl).trans hbmac⟩
    · exact ⟨b, by simpa [setNode, Ne.symm he] using hb, hbmac⟩

/-- What a node means: its address and its MAC address. -/
def mapping (t : MacTable α) (p : Node) : Option (α × MacAddr) :=
  (t.node p).map fun x => (x.addr, x.macAddr)

/-- Node `e` is freed, and all others mean what they did. -/
structure Freed (t u : MacTable α) (e : Node) : Prop where
  gone : u.node e = none
  mapping : ∀ q, q ≠ e → u.mapping q = t.mapping q

theorem Ok.freed (h : t.Ok P) (hfreed : Freed t u e) (he : e ≠ 0) (hvalid : u.valid = t.valid)
    (hfresh : u.fresh = t.fresh)
    (hchains : HashChains u.next u.hash (update (t.bucket P) e none)) : u.Ok P := by
  have hbucket : u.bucket P = update (t.bucket P) e none := by
    funext q
    by_cases hq : q = e
    · subst hq
      simp [bucket, hfreed.gone]
    · rw [update_of_ne hq]
      have hsame := hfreed.mapping q hq
      unfold MacTable.mapping at hsame
      unfold bucket
      cases hu : u.node q with
      | none =>
        rw [hu] at hsame
        rw [map_eq_none_iff.mp hsame.symm]
      | some y =>
        rw [hu] at hsame
        obtain ⟨x, hx, hxy⟩ := map_eq_some_iff.mp hsame.symm
        rw [hx, map_some, map_some, (Prod.mk.inj hxy).1]
  -- node 0 stays, since it is not the one that is freed
  refine ⟨hvalid.trans h.valid, hbucket ▸ hchains, ?_, ?_⟩
  · intro q y hy
    have hq : q ≠ e := by
      rintro rfl
      rw [hfreed.gone] at hy
      cases hy
    have hsame := hfreed.mapping q hq
    rw [MacTable.mapping, hy, map_some] at hsame
    obtain ⟨x, hx, -⟩ := map_eq_some_iff.mp hsame.symm
    rw [hfresh]
    exact h.fresh q x hx
  · obtain ⟨b, hb, hmac⟩ := h.bcast
    have hsame := hfreed.mapping 0 he.symm
    rw [MacTable.mapping, MacTable.mapping, hb, map_some] at hsame
    obtain ⟨y, hy, hyb⟩ := map_eq_some_iff.mp hsame
    exact ⟨y, hy, (Prod.mk.inj hyb).2.trans hmac⟩

/-- **The head of a chain** is aged and goes; the walk is at the node behind the new head. -/
theorem removeAged_head (h : t.Ok P) (hchain : Chain t.next (t.hash k) (e :: m)) (he : e ≠ 0)
    (hx : t.node e = some x) (pPrev : Option Node) :
    ∃ u, t.removeAged k pPrev e x = some (u, m.head?, m.tail.head?) ∧ u.Ok P ∧ Freed t u e ∧
      u.fresh = t.fresh ∧ Chain u.next (u.hash k) m := by
  have hnext : t.next e = x.pNext := by rw [next, hx]; rfl
  let u : MacTable α :=
    { (t.setHash k x.pNext).matDBEntryFree e with nodeCount := t.nodeCount - 1 }
  have hfreed : Freed t u e := by
    refine ⟨by simp [u, matDBEntryFree, setNode], ?_⟩
    intro q hq
    simp [u, MacTable.mapping, matDBEntryFree, setNode, setHash, hq]
  have hunext : ∀ q, q ≠ e → u.next q = t.next q := by
    intro q hq
    simp [u, next, matDBEntryFree, setNode, setHash, hq]
  have hchains : HashChains u.next u.hash (update (t.bucket P) e none) := by
    have hunlinked := h.chains.unlink_head hchain
    rw [hnext] at hunlinked
    refine hunlinked.congr ?_
    intro q hq
    apply hunext
    rintro rfl
    simp at hq
  have hok : u.Ok P := h.freed hfreed he rfl rfl hchains
  have hnodup := h.nodup hchain
  have hrest : Chain u.next (u.hash k) m := by
    have hstart : u.hash k = x.pNext := by simp [u, matDBEntryFree, setNode, setHash]
    rw [hstart, ← hnext]
    exact hchain.2.congr fun q hq =>
      hunext q (ne_of_mem_of_not_mem hq (nodup_cons.mp hnodup).1)
  refine ⟨u, ?_, hok, hfreed, rfl, hrest⟩
  -- `pPrev` is the new head, and the walk goes on behind it
  have hhead : some e = t.hash k := hchain.1.symm
  have hstart : (t.setHash k x.pNext).hash k = m.head? := hrest.head
  rw [removeAged, if_pos hhead]
  simp only [matDBEntryFree, setNode, hstart]
  cases m with
  | nil => rfl
  | cons q m =>
    obtain ⟨y, hy⟩ := hok.exists_node hrest mem_cons_self
    have hynext : y.pNext = m.head? :=
      next_eq_of_chain (show Chain u.next (u.hash k) ([] ++ q :: m) from hrest) hy
    have hnextOf : u.nextOf q = some m.head? := by rw [nextOf, hy, map_some, hynext]
    show (u.nextOf q).bind (fun pNext => some (u, some q, pNext)) = _
    rw [hnextOf]
    rfl

/-- **A node behind another** is aged and goes. -/
theorem removeAged_behind (h : t.Ok P) (hchain : Chain t.next (t.hash k) (pre ++ p :: e :: m))
    (he : e ≠ 0) (hx : t.node e = some x) :
    ∃ u, t.removeAged k (some p) e x = some (u, some p, m.head?) ∧ u.Ok P ∧ Freed t u e ∧
      u.fresh = t.fresh ∧ Chain u.next (u.hash k) (pre ++ p :: m) := by
  have hnodup := h.nodup hchain
  have hpe : p ≠ e := by
    rintro rfl
    simp [nodup_append] at hnodup
  -- the node is not the head, so that the code takes the other branch
  have hhead : some e ≠ t.hash k := by
    rw [hchain.head]
    cases pre with
    | nil => simpa using hpe.symm
    | cons a pre =>
      have hae : e ≠ a := by
        rintro rfl
        simp at hnodup
      simpa using hae
  have hsplit : pre ++ p :: e :: m = (pre ++ [p]) ++ e :: m := by simp
  have hxnext : x.pNext = m.head? := next_eq_of_chain (hsplit ▸ hchain) hx
  obtain ⟨y, hy⟩ := h.exists_node hchain (show p ∈ pre ++ p :: e :: m by simp)
  -- the table afterwards
  let u : MacTable α :=
    { (t.setNode p (some { y with pNext := x.pNext })).matDBEntryFree e with
      nodeCount := t.nodeCount - 1 }
  have hup : u.node p = some { y with pNext := x.pNext } := by
    simp [u, matDBEntryFree, setNode, hpe]
  have hfreed : Freed t u e := by
    refine ⟨by simp [u, matDBEntryFree, setNode], ?_⟩
    intro q hq
    by_cases hqp : q = p
    · subst hqp
      simp [MacTable.mapping, hup, hy]
    · simp [u, MacTable.mapping, matDBEntryFree, setNode, hq, hqp]
  have hunext : ∀ q, q ≠ e → u.next q = update t.next p (t.next e) q := by
    intro q hq
    have hnext : t.next e = x.pNext := by rw [next, hx]; rfl
    by_cases hqp : q = p
    · subst hqp
      rw [update_self, hnext, next, hup]
      rfl
    · rw [update_of_ne hqp]
      simp [u, next, matDBEntryFree, setNode, hq, hqp]
  have hchains : HashChains u.next u.hash (update (t.bucket P) e none) := by
    refine (h.chains.unlink hchain).congr ?_
    intro q hq
    apply hunext
    rintro rfl
    simp at hq
  have hok : u.Ok P := h.freed hfreed he rfl rfl hchains
  have hrest : Chain u.next (u.hash k) (pre ++ p :: m) := by
    refine (hchain.unlink hnodup).congr ?_
    intro q hq
    apply hunext
    rintro rfl
    have hnot : q ∉ pre ++ p :: m := by
      rw [hsplit, nodup_middle, nodup_cons] at hnodup
      simpa using hnodup.1
    exact hnot hq
  refine ⟨u, ?_, hok, hfreed, rfl, hrest⟩
  -- `pPrev` keeps its place, and its link is the one that the freed node had
  rw [removeAged, if_neg hhead]
  show ((some p).bind fun p => (t.node p).bind fun y => _) = _
  rw [bind_some, hy, bind_some]
  show (u.nextOf p).bind (fun pNext => some (u, some p, pNext)) = _
  rw [nextOf, hup, hxnext]
  rfl

/-! ## The walk of an update -/

/-- What a walk over the nodes `seen` leaves behind: a node of the address has the MAC address,
    if there is one, and otherwise no node is new or means something else. -/
structure Walked (t u : MacTable α) (seen : Node → Prop) (addr : α) (mac : MacAddr)
    (found : Bool) : Prop where
  kept : ∀ q a c, u.mapping q = some (a, c) → t.mapping q = some (a, c) ∨ a = addr ∧ c = mac ∧
    found = true ∧ t.addrOf q = some addr
  unseen : ∀ q, ¬ seen q → u.mapping q = t.mapping q
  updated : found = true → ∃ q, seen q ∧ t.addrOf q = some addr ∧ u.mapping q = some (addr, mac)
  absent : found = false → ∀ q, seen q → t.addrOf q ≠ some addr
  sameFresh : u.fresh = t.fresh

variable {addr : α} {mac : MacAddr} {found : Bool} {seen seen' : Node → Prop}

theorem addrOf_eq_mapping (t : MacTable α) (p : Node) :
    t.addrOf p = (t.mapping p).map Prod.fst := by
  rw [addrOf, mapping, Option.map_map]
  rfl

theorem Walked.addrOf (h : Walked t u seen addr mac found) {a : α} (he : u.addrOf e = some a) :
    t.addrOf e = some a := by
  obtain ⟨x, hx, rfl⟩ := map_eq_some_iff.mp he
  rcases h.kept e x.addr x.macAddr (by rw [mapping, hx]; rfl) with hold | ⟨ha, -, -, hnew⟩
  · rw [addrOf_eq_mapping, hold]
    rfl
  · exact ha ▸ hnew

theorem Walked.mapping_of_absent (h : Walked t u seen addr mac false) {a : α} {c : MacAddr}
    (he : u.mapping e = some (a, c)) : t.mapping e = some (a, c) := by
  rcases h.kept e a c he with hold | ⟨-, -, hfound, -⟩
  · exact hold
  · cases hfound

theorem Walked.refl (t : MacTable α) (addr : α) (mac : MacAddr)
    (habsent : ∀ q, seen q → t.addrOf q ≠ some addr) : Walked t t seen addr mac false where
  kept _ _ _ hq := .inl hq
  unseen _ _ := rfl
  updated h := by cases h
  absent _ := habsent
  sameFresh := rfl

theorem Walked.pass (h : Walked t u seen addr mac found) (he : t.addrOf e ≠ some addr)
    (hseen : ∀ q, seen' q ↔ q = e ∨ seen q) : Walked t u seen' addr mac found where
  kept := h.kept
  unseen q hq := h.unseen q fun hmem => hq ((hseen q).mpr (.inr hmem))
  updated hf := by
    obtain ⟨q, hq, hrest⟩ := h.updated hf
    exact ⟨q, (hseen q).mpr (.inr hq), hrest⟩
  absent hf q hq := by
    rcases (hseen q).mp hq with rfl | hmem
    · exact he
    · exact h.absent hf q hmem
  sameFresh := h.sameFresh

theorem Walked.remove (h : Walked u w seen addr mac found) (hfreed : Freed t u e)
    (hfresh : u.fresh = t.fresh) (he : t.addrOf e ≠ some addr)
    (hseen : ∀ q, seen' q ↔ q = e ∨ seen q) : Walked t w seen' addr mac found := by
  have hgone : u.mapping e = none := by rw [mapping, hfreed.gone]; rfl
  -- the freed node is none of those that the rest of the walk is about
  have haddr : ∀ q, u.addrOf q = some addr → t.addrOf q = some addr := by
    intro q hq
    have hqe : q ≠ e := by
      rintro rfl
      rw [addrOf_eq_mapping, hgone] at hq
      cases hq
    rw [addrOf_eq_mapping, ← hfreed.mapping q hqe, ← addrOf_eq_mapping]
    exact hq
  constructor
  case kept =>
    intro q a c hq
    rcases h.kept q a c hq with hold | ⟨ha, hc, hf, hnew⟩
    · have hqe : q ≠ e := by
        rintro rfl
        rw [hgone] at hold
        cases hold
      exact .inl (hfreed.mapping q hqe ▸ hold)
    · exact .inr ⟨ha, hc, hf, haddr q hnew⟩
  case unseen =>
    intro q hq
    rw [hseen, not_or] at hq
    rw [h.unseen q hq.2, hfreed.mapping q hq.1]
  case updated =>
    intro hf
    obtain ⟨q, hq, hnew, hmap⟩ := h.updated hf
    exact ⟨q, (hseen q).mpr (.inr hq), haddr q hnew, hmap⟩
  case absent =>
    intro hf q hq
    by_cases hqe : q = e
    · exact hqe ▸ he
    · have hmem := ((hseen q).mp hq).resolve_left hqe
      rw [addrOf_eq_mapping, ← hfreed.mapping q hqe, ← addrOf_eq_mapping]
      exact h.absent hf q hmem
  case sameFresh => exact h.sameFresh.trans hfresh

theorem Ok.touch_found (h : t.Ok P) (hx : t.node e = some x) (haddr : x.addr = addr)
    (he : e ≠ 0) (mac : MacAddr) (time : BitVec 32) (seen : Node → Prop) (hseen : seen e) :
    (t.setNode e (some { x with macAddr := mac, lastTime := time })).Ok P ∧
      Walked t (t.setNode e (some { x with macAddr := mac, lastTime := time })) seen addr mac
        true := by
  have hself : (t.setNode e (some { x with macAddr := mac, lastTime := time })).mapping e =
      some (addr, mac) := by
    simp [mapping, setNode, haddr]
  have hother : ∀ q, q ≠ e →
      (t.setNode e (some { x with macAddr := mac, lastTime := time })).mapping q =
        t.mapping q := by
    intro q hq
    simp [mapping, setNode, hq]
  have hatE : t.addrOf e = some addr := by simp [addrOf, hx, haddr]
  have hok := (h.touch (y := { x with macAddr := mac, lastTime := time }) hx rfl rfl
    fun h0 => absurd h0 he).1
  refine ⟨hok, ?_⟩
  constructor
  case kept =>
    intro q a c hq
    by_cases hqe : q = e
    · subst hqe
      rw [hself, some.injEq, Prod.mk.injEq] at hq
      exact .inr ⟨hq.1.symm, hq.2.symm, rfl, hatE⟩
    · exact .inl (hother q hqe ▸ hq)
  case unseen => exact fun q hq => hother q (fun hqe => hq (hqe ▸ hseen))
  case updated => exact fun _ => ⟨e, hseen, hatE, hself⟩
  case absent => exact fun hf => by cases hf
  case sameFresh => rfl

theorem bucket_of_addrOf (he : e ≠ 0) (haddr : t.addrOf e = some addr) :
    t.bucket P e = some (P.hashIndex addr).castSucc := by
  obtain ⟨x, hx, rfl⟩ := map_eq_some_iff.mp haddr
  rw [bucket, hx, map_some, if_neg he]

theorem addrOf_of_mapping (h : t.mapping e = some (addr, mac)) : t.addrOf e = some addr := by
  rw [addrOf_eq_mapping, h]
  rfl

theorem exists_mapping (h : t.addrOf e = some addr) : ∃ c, t.mapping e = some (addr, c) := by
  obtain ⟨x, hx, rfl⟩ := map_eq_some_iff.mp h
  exact ⟨x.macAddr, by rw [mapping, hx]; rfl⟩

theorem addrOf_ne (hx : t.node e = some x) (haddr : addr ≠ x.addr) : t.addrOf e ≠ some addr := by
  rw [addrOf, hx, map_some]
  exact fun heq => haddr (some.inj heq).symm

variable [DecidableEq α]

/-- **The walk behind a node** of a chain sees all nodes from there on. -/
theorem updateLoop_spec {i : Fin matMaxHashEntrySupport} (h : t.Ok P)
    (hchain : Chain t.next (t.hash i.castSucc) (pre ++ p :: m)) (addr : α) (mac : MacAddr)
    (now : Readings) (n : Nat) {fuel : Nat} (hfuel : m.length < fuel) :
    ∃ u found, updateLoop P i.castSucc addr mac now fuel n t (some p) m.head? = some (u, found) ∧
      u.Ok P ∧ Walked t u (· ∈ m) addr mac found := by
  obtain ⟨fuel, rfl⟩ := exists_eq_add_one_of_ne_zero (Nat.ne_zero_of_lt hfuel)
  induction m generalizing t n fuel p pre with
  | nil => exact ⟨t, false, rfl, h, Walked.refl t addr mac (by simp)⟩
  | cons e m ih =>
    have hsplit : pre ++ p :: e :: m = (pre ++ [p]) ++ e :: m := by simp
    have hmem : e ∈ pre ++ p :: e :: m := by simp
    have he : e ≠ 0 := h.ne_zero hchain hmem
    obtain ⟨x, hx⟩ := h.exists_node hchain hmem
    have hxnext : x.pNext = m.head? := next_eq_of_chain (hsplit ▸ hchain) hx
    have hseen : ∀ q, q ∈ e :: m ↔ q = e ∨ q ∈ m := fun q => mem_cons
    rw [length_cons, Nat.add_lt_add_iff_right] at hfuel
    obtain ⟨fuel, rfl⟩ := exists_eq_add_one_of_ne_zero (Nat.ne_zero_of_lt hfuel)
    simp only [updateLoop, head?_cons, hx, bind_eq_bind, bind_some]
    by_cases haddr : addr = x.addr
    · -- the node is found, and only its time and MAC address change
      rw [if_pos haddr]
      obtain ⟨hok, hwalked⟩ := h.touch_found hx haddr.symm he mac (P.foundTime now n)
        (· ∈ e :: m) mem_cons_self
      exact ⟨_, true, rfl, hok, hwalked⟩
    have hother := addrOf_ne hx haddr
    rw [if_neg haddr]
    by_cases haged : isAged x (now.walk n) = true
    · -- the node goes, and the walk stays behind the same node
      rw [if_pos haged]
      obtain ⟨u, hremove, hoku, hfreed, hfresh, hrest⟩ := removeAged_behind h hchain he hx
      obtain ⟨w, found, hloop, hokw, hwalked⟩ := ih hoku hrest (n + 1) fuel hfuel
      rw [hremove, bind_some]
      exact ⟨w, found, hloop, hokw, hwalked.remove hfreed hfresh hother hseen⟩
    · -- the node stays, and the walk is behind it
      rw [if_neg haged, hxnext]
      obtain ⟨w, found, hloop, hokw, hwalked⟩ := ih h (hsplit ▸ hchain) (n + 1) fuel hfuel
      exact ⟨w, found, hloop, hokw, hwalked.pass hother hseen⟩

/-- The node that an update does not compare: the second of the chain when the first is aged
    and for another address. -/
def skippedNode (t : MacTable α) (k : Bucket) (addr : α) (now : Readings) : Option Node := do
  let e ← t.hash k
  let x ← t.node e
  if addr ≠ x.addr ∧ isAged x (now.walk 0) = true then x.pNext else none

theorem skippedNode_eq (hchain : Chain t.next (t.hash k) (e :: m))
    (hx : t.node e = some x) (addr : α) (now : Readings) : t.skippedNode k addr now =
      if addr ≠ x.addr ∧ isAged x (now.walk 0) = true then m.head? else none := by
  have hxnext : x.pNext = m.head? :=
    next_eq_of_chain (show Chain t.next (t.hash k) ([] ++ e :: m) from hchain) hx
  simp only [skippedNode, hchain.head, head?_cons, bind_eq_bind, bind_some, hx, hxnext]

theorem Ok.skippedNode_bucket (h : t.Ok P) {now : Readings}
    (hskipped : t.skippedNode k addr now = some p) : t.bucket P p = some k := by
  obtain ⟨l, hchain, -, hmem⟩ := h.chains k
  rw [← hmem]
  cases l with
  | nil =>
    rw [skippedNode, hchain.head] at hskipped
    cases hskipped
  | cons e m =>
    obtain ⟨x, hx⟩ := h.exists_node hchain mem_cons_self
    rw [skippedNode_eq hchain hx] at hskipped
    split at hskipped
    · exact mem_cons_of_mem e (mem_of_head? hskipped)
    · cases hskipped

/-- **The walk of an update** sees all nodes of the chain but the one that it skips. -/
theorem updateWalk_spec {i : Fin matMaxHashEntrySupport} (h : t.Ok P) (addr : α) (mac : MacAddr)
    (now : Readings) :
    ∃ u found, updateLoop P i.castSucc addr mac now t.walkFuel 0 t (t.hash i.castSucc)
        (t.hash i.castSucc) = some (u, found) ∧
      u.Ok P ∧ Walked t u (fun q => t.bucket P q = some i.castSucc ∧
        some q ≠ t.skippedNode i.castSucc addr now) addr mac found := by
  obtain ⟨l, hchain, hnodup, hmem⟩ := h.chains i.castSucc
  have hlen := h.length_lt hchain
  rw [walkFuel] at hlen ⊢
  rw [hchain.head]
  cases l with
  | nil =>
    -- the chain is empty
    refine ⟨t, false, rfl, h, Walked.refl t addr mac ?_⟩
    rintro q ⟨hq, -⟩
    exact absurd ((hmem q).mpr hq) not_mem_nil
  | cons e m =>
    have he : e ≠ 0 := h.ne_zero hchain mem_cons_self
    obtain ⟨x, hx⟩ := h.exists_node hchain mem_cons_self
    have hxnext : x.pNext = m.head? :=
      next_eq_of_chain (show Chain t.next (t.hash i.castSucc) ([] ++ e :: m) from hchain) hx
    have hskipped := skippedNode_eq hchain hx addr now
    simp only [← hmem, updateLoop, head?_cons, hx, bind_eq_bind, bind_some]
    rw [length_cons, Nat.add_lt_add_iff_right] at hlen
    by_cases haddr : addr = x.addr
    · rw [if_pos haddr]
      rw [if_neg (fun hboth => hboth.1 haddr)] at hskipped
      obtain ⟨hok, hwalked⟩ := h.touch_found hx haddr.symm he mac (P.foundTime now 0)
        (fun q => q ∈ e :: m ∧ some q ≠ t.skippedNode i.castSucc addr now) (by simp [hskipped])
      exact ⟨_, true, rfl, hok, hwalked⟩
    have hother := addrOf_ne hx haddr
    rw [if_neg haddr]
    by_cases haged : isAged x (now.walk 0) = true
    · -- the head goes; the walk is behind the new head, which nobody has compared
      rw [if_pos haged]
      rw [if_pos ⟨haddr, haged⟩] at hskipped
      obtain ⟨u, hremove, hoku, hfreed, hfresh, hrest⟩ :=
        removeAged_head h hchain he hx (some e)
      rw [hremove, bind_some]
      cases m with
      | nil =>
        obtain ⟨fuel, hfuel⟩ := exists_eq_add_one_of_ne_zero (Nat.ne_zero_of_lt hlen)
        have hwalked : Walked u u (fun _ => False) addr mac false :=
          Walked.refl u addr mac fun _ hq => hq.elim
        rw [hfuel]
        refine ⟨u, false, rfl, hoku, hwalked.remove hfreed hfresh hother ?_⟩
        intro q
        simp [hskipped]
      | cons p m =>
        obtain ⟨w, found, hloop, hokw, hwalked⟩ := updateLoop_spec hoku
          (show Chain u.next (u.hash i.castSucc) ([] ++ p :: m) from hrest) addr mac now 1
          (lt_of_succ_lt hlen)
        refine ⟨w, found, hloop, hokw, hwalked.remove hfreed hfresh hother ?_⟩
        intro q
        have hpm : p ∉ m := (nodup_cons.mp (nodup_cons.mp hnodup).2).1
        have hep : e ≠ p := (ne_and_not_mem_of_not_mem_cons (nodup_cons.mp hnodup).1).1
        simp only [hskipped, head?_cons, ne_eq, some.injEq, mem_cons]
        constructor
        · rintro ⟨rfl | rfl | hq, hqp⟩
          · exact .inl rfl
          · exact absurd rfl hqp
          · exact .inr hq
        · rintro (rfl | hq)
          · exact ⟨.inl rfl, hep⟩
          · exact ⟨.inr (.inr hq), ne_of_mem_of_not_mem hq hpm⟩
    · -- the head stays, and the walk is behind it
      rw [if_neg haged, hxnext]
      rw [if_neg (fun hboth => haged hboth.2)] at hskipped
      obtain ⟨w, found, hloop, hokw, hwalked⟩ := updateLoop_spec h
        (show Chain t.next (t.hash i.castSucc) ([] ++ e :: m) from hchain) addr mac now 1 hlen
      refine ⟨w, found, hloop, hokw, hwalked.pass hother ?_⟩
      intro q
      simp [hskipped]

/-! ## A new node -/

omit [DecidableEq α] in
theorem Ok.insertNode (h : t.Ok P) (addr : α) (mac : MacAddr) (now : BitVec 32) :
    (t.insertNode (P.hashIndex addr).castSucc addr mac now).Ok P ∧
      (t.insertNode (P.hashIndex addr).castSucc addr mac now).mapping t.fresh =
        some (addr, mac) ∧
      ∀ q, q ≠ t.fresh →
        (t.insertNode (P.hashIndex addr).castSucc addr mac now).mapping q = t.mapping q := by
  obtain ⟨b, hb, hbmac⟩ := h.bcast
  have hpos : t.fresh ≠ 0 := Nat.ne_zero_of_lt (h.fresh 0 b hb)
  -- no node has the number of the next allocation
  have hfree : t.node t.fresh = none := by
    by_contra hused
    obtain ⟨x, hx⟩ := ne_none_iff_exists'.mp hused
    exact absurd (h.fresh _ x hx) (Nat.lt_irrefl _)
  let u := t.insertNode (P.hashIndex addr).castSucc addr mac now
  have hself : u.node t.fresh = some ⟨addr, mac, now, t.hash (P.hashIndex addr).castSucc⟩ := by
    simp [u, MacTable.insertNode, setNode, setHash]
  have hsame : ∀ q, q ≠ t.fresh → u.node q = t.node q := by
    intro q hq
    simp [u, MacTable.insertNode, setNode, setHash, hq]
  have hbucket : u.bucket P =
      update (t.bucket P) t.fresh (some (P.hashIndex addr).castSucc) := by
    funext q
    by_cases hq : q = t.fresh
    · subst hq
      simp [bucket, hself, hpos]
    · rw [update_of_ne hq, bucket, hsame q hq, bucket]
  refine ⟨⟨h.valid, ?_, ?_, ?_⟩, ?_, ?_⟩
  · rw [hbucket]
    apply h.chains.push (by simp [bucket, hfree])
    · rw [next, hself]
      rfl
    · intro q hq
      rw [next, hsame q hq, next]
  · intro q x hx
    show q < t.fresh + 1
    by_cases hq : q = t.fresh
    · exact hq ▸ lt_succ_self _
    · exact lt_succ_of_lt (h.fresh q x (hsame q hq ▸ hx))
  · exact ⟨b, (hsame 0 hpos.symm).trans hb, hbmac⟩
  · rw [mapping, hself]
    rfl
  · intro q hq
    rw [mapping, hsame q hq, mapping]

/-! ## Lookups -/

/-- **A lookup** finds a node of the address if there is one on the chain. -/
theorem lookUpLoop_spec {q : Option Node} {fuel : Nat} (hchain : Chain t.next q l)
    (hnode : ∀ e ∈ l, ∃ x, t.node e = some x) (addr : α) (hfuel : l.length < fuel) :
    ∃ r, t.lookUpLoop addr fuel q = some r ∧
      (∀ e, r = some e → e ∈ l ∧ t.addrOf e = some addr) ∧
      (r = none → ∀ e ∈ l, t.addrOf e ≠ some addr) := by
  obtain ⟨fuel, rfl⟩ := exists_eq_add_one_of_ne_zero (Nat.ne_zero_of_lt hfuel)
  induction l generalizing q fuel with
  | nil =>
    obtain rfl : q = none := hchain
    exact ⟨none, rfl, by simp, by simp⟩
  | cons e l ih =>
    obtain ⟨rfl, hrest⟩ := hchain
    obtain ⟨x, hx⟩ := hnode e mem_cons_self
    rw [length_cons, Nat.add_lt_add_iff_right] at hfuel
    simp only [lookUpLoop, hx, bind_eq_bind, bind_some]
    by_cases haddr : x.addr = addr
    · rw [if_pos haddr]
      refine ⟨some e, rfl, ?_, by simp⟩
      rintro _ ⟨⟩
      refine ⟨mem_cons_self, ?_⟩
      rw [addrOf, hx, map_some, haddr]
    · rw [if_neg haddr]
      obtain ⟨fuel, rfl⟩ := exists_eq_add_one_of_ne_zero (Nat.ne_zero_of_lt hfuel)
      have hlink : t.next e = x.pNext := by rw [next, hx]; rfl
      obtain ⟨r, hloop, hfound, habsent⟩ :=
        ih (hlink ▸ hrest) (fun q hq => hnode q (mem_cons_of_mem e hq)) fuel hfuel
      refine ⟨r, hloop, ?_, ?_⟩
      · intro q hq
        exact ⟨mem_cons_of_mem e (hfound q hq).1, (hfound q hq).2⟩
      intro hr q hq
      rcases mem_cons.mp hq with rfl | hmem
      · exact addrOf_ne hx (Ne.symm haddr)
      · exact habsent hr q hmem

/-! ## Calls -/

/-- **An update** walks the chain of the address, and where it has not found the address a new
    node joins the chain, if there is memory for it. -/
theorem macTableUpdate_spec (h : t.Ok P) (mac : MacAddr) (addr : α) (now : Readings)
    (alloc : Bool) : ∃ u found, u.Ok P ∧
      Walked t u (fun q => t.bucket P q = some (P.hashIndex addr).castSucc ∧
        some q ≠ t.skippedNode (P.hashIndex addr).castSucc addr now) addr mac found ∧
      t.macTableUpdate P mac addr now alloc = some (if found = true then (u, true)
        else if alloc = true then
          (u.insertNode (P.hashIndex addr).castSucc addr mac now.insert, true)
        else (u, false)) := by
  obtain ⟨u, found, hloop, hok, hwalked⟩ := updateWalk_spec (i := P.hashIndex addr) h addr mac now
  refine ⟨u, found, hok, hwalked, ?_⟩
  simp only [macTableUpdate, h.valid, Bool.not_true, Bool.false_eq_true, if_false, hloop,
    bind_eq_bind, bind_some]
  cases found <;> cases alloc <;> rfl

/-- **A lookup** changes no mapping, and returns the MAC address of a node of the address if there
    is one. -/
theorem macTableLookUp_spec (h : t.Ok P) (addr : α) (now : BitVec 32) :
    ∃ u mac, t.macTableLookUp P addr now = some (u, some mac) ∧ u.Ok P ∧
      u.mapping = t.mapping ∧
      (P.isMulticast addr = false → (∃ e, e ≠ 0 ∧ t.mapping e = some (addr, mac)) ∨
        mac = broadcastAddr ∧ ∀ e, e ≠ 0 → t.addrOf e ≠ some addr) := by
  simp only [macTableLookUp, h.valid, Bool.not_true, Bool.false_eq_true, if_false]
  by_cases hmulti : P.isMulticast addr = true
  · obtain ⟨mac, hmac⟩ := isSome_iff_exists.mp (P.mcastMac_isSome addr)
    rw [if_pos hmulti, hmac]
    refine ⟨_, mac, rfl, ⟨rfl, h.chains, h.fresh, h.bcast⟩, rfl, ?_⟩
    intro hnot
    rw [hmulti] at hnot
    cases hnot
  rw [if_neg hmulti]
  obtain ⟨l, hchain, -, hmem⟩ := h.chains (P.hashIndex addr).castSucc
  obtain ⟨r, hloop, hfound, habsent⟩ := lookUpLoop_spec hchain (fun e he => h.exists_node hchain he)
    addr (h.length_lt hchain)
  rw [hloop]
  cases r with
  | some e =>
    obtain ⟨hel, haddr⟩ := hfound e rfl
    obtain ⟨x, hx, rfl⟩ := map_eq_some_iff.mp haddr
    -- the time of the node is the only thing that changes
    have hok := (h.touch (y := { x with lastTime := now }) hx rfl rfl fun _ => rfl).1
    refine ⟨t.setNode e (some { x with lastTime := now }), x.macAddr, ?_, hok, ?_, ?_⟩
    · simp [hx]
    · funext q
      by_cases hq : q = e
      · subst hq
        simp [mapping, setNode, hx]
      · simp [mapping, setNode, hq]
    · intro _
      exact .inl ⟨e, h.ne_zero hchain hel, by rw [mapping, hx]; rfl⟩
  | none =>
    -- the answer is the node of the broadcast address
    obtain ⟨b, hb, hbmac⟩ := h.bcast
    refine ⟨t, b.macAddr, by simp [h.hash_bcast, hb], h, rfl, fun _ => .inr ⟨hbmac, ?_⟩⟩
    intro e he haddr
    exact habsent rfl e ((hmem e).mpr (bucket_of_addrOf he haddr)) haddr

end MacTable

end RalinkSdk.Mat
