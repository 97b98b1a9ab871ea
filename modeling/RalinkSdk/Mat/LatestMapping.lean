import RalinkSdk.Mat.MacTableInv

/-!
# The latest mapping of an address

Stations move between IP addresses, and the tables are to follow: a lookup returns the MAC
address with which the address was last updated, or the broadcast address.  `History` keeps these
updates beside a table.

An update that takes the aged head off a chain goes on behind the new head.  Where the new head
is the node of the address, the update does not find it and puts a second node in front, which
ages and goes before the old one does.
-/

namespace RalinkSdk.Mat

open IgmpSnoop (MacAddr)
open Lib Option Function

variable {α : Type}

/-- A call of an update or of a lookup. -/
inductive Call (α : Type) where
  | update (pMacAddr : MacAddr) (addr : α) (now : Readings) (alloc : Bool)
  | lookUp (addr : α) (now : BitVec 32)

/-- A table, and the MAC address with which each address was last updated. -/
structure History (α : Type) where
  table : MacTable α
  last : α → Option MacAddr

namespace History

variable [DecidableEq α]

def step (P : MatProto α) (s : History α) : Call α → Option (History α)
  | .update pMacAddr addr now alloc => do
    let out ← s.table.macTableUpdate P pMacAddr addr now alloc
    some ⟨out.1, update s.last addr (some pMacAddr)⟩
  | .lookUp addr now => do
    let out ← s.table.macTableLookUp P addr now
    some ⟨out.1, s.last⟩

/-- A table that has just been initialized. -/
def init (zero : α) : History α := ⟨macTableInit zero, fun _ => none⟩

/-- **The latest mappings**: no chain holds two nodes of one address, and a lookup of a unicast
    address returns the MAC address of its latest update, or the broadcast address. -/
structure Latest (P : MatProto α) (s : History α) : Prop where
  once : ∀ k, ∃ l, Chain s.table.next (s.table.hash k) l ∧ (l.map s.table.addrOf).Nodup
  latest : ∀ addr now, P.isMulticast addr = false →
    ∃ u mac, s.table.macTableLookUp P addr now = some (u, some mac) ∧
      (s.last addr = some mac ∨ mac = broadcastAddr)

/-- After the call the mappings are the latest. -/
def KeepsLatest (P : MatProto α) (s : History α) (c : Call α) : Prop :=
  ∃ s', s.step P c = some s' ∧ s'.Latest P

/-- An update must not skip the node of its address; it may where there is no memory for a
    second one, and the old one is not wrong. -/
def Ready (P : MatProto α) (s : History α) : Call α → Prop
  | .update pMacAddr addr now alloc =>
    ∀ p mac, s.table.skippedNode (P.hashIndex addr).castSucc addr now = some p →
      s.table.mapping p = some (addr, mac) →
        alloc = false ∧ (P.isMulticast addr = true ∨ mac = pMacAddr ∨ mac = broadcastAddr)
  | .lookUp _ _ => True

/-! ## What the nodes say -/

/-- What the mappings say of the nodes. -/
structure Consistent (P : MatProto α) (t : MacTable α) (last : α → Option MacAddr) : Prop where
  once : ∀ p q a, p ≠ 0 → q ≠ 0 → t.addrOf p = some a → t.addrOf q = some a → p = q
  latest : ∀ p a mac, p ≠ 0 → t.mapping p = some (a, mac) → P.isMulticast a = false →
    last a = some mac ∨ mac = broadcastAddr

variable {P : MatProto α} {s s' : History α}

theorem latest_iff (h : s.table.Ok P) : s.Latest P ↔ Consistent P s.table s.last := by
  constructor
  · intro hlatest
    have honce : ∀ p q a, p ≠ 0 → q ≠ 0 → s.table.addrOf p = some a →
        s.table.addrOf q = some a → p = q := by
      intro p q a hp hq hpa hqa
      obtain ⟨l, hchain, hnodup⟩ := hlatest.once (P.hashIndex a).castSucc
      have hpl := (h.mem_iff hchain).mpr (MacTable.bucket_of_addrOf hp hpa)
      have hql := (h.mem_iff hchain).mpr (MacTable.bucket_of_addrOf hq hqa)
      exact List.inj_on_of_nodup_map hnodup hpl hql (hpa.trans hqa.symm)
    refine ⟨honce, ?_⟩
    intro p a mac hp hmap hunicast
    obtain ⟨u, mac', hlookup, hmac'⟩ := hlatest.latest a 0 hunicast
    obtain ⟨u', mac'', hlookup', -, -, hreturned⟩ := MacTable.macTableLookUp_spec h a 0
    rw [hlookup', some.injEq, Prod.mk.injEq, some.injEq] at hlookup
    obtain ⟨-, rfl⟩ := hlookup
    have hpa := MacTable.addrOf_of_mapping hmap
    rcases hreturned hunicast with ⟨q, hq, hqmap⟩ | ⟨-, hnone⟩
    · -- the lookup has found this node
      obtain rfl := honce p q a hp hq hpa (MacTable.addrOf_of_mapping hqmap)
      rw [hmap, some.injEq, Prod.mk.injEq] at hqmap
      obtain ⟨-, rfl⟩ := hqmap
      exact hmac'
    · exact absurd hpa (hnone p hp)
  · intro hcons
    refine ⟨?_, ?_⟩
    · -- two nodes of a chain are of different addresses; the one of node 0 does not matter
      intro k
      obtain ⟨l, hchain, hnodup, hmem⟩ := h.chains k
      refine ⟨l, hchain, hnodup.map_on ?_⟩
      intro p hp q hq heq
      by_cases hk : k = hashIndexOfBcast
      · subst hk
        rw [h.eq_zero hchain hp, h.eq_zero hchain hq]
      · obtain ⟨i, rfl⟩ := Fin.exists_castSucc_eq.mpr hk
        obtain ⟨x, hx⟩ := h.exists_node hchain hp
        have hpa : s.table.addrOf p = some x.addr := by rw [MacTable.addrOf, hx]; rfl
        exact hcons.once p q x.addr (h.ne_zero hchain hp) (h.ne_zero hchain hq) hpa
          (heq ▸ hpa)
    · intro addr now hunicast
      obtain ⟨u, mac, hlookup, -, -, hreturned⟩ := MacTable.macTableLookUp_spec h addr now
      refine ⟨u, mac, hlookup, ?_⟩
      rcases hreturned hunicast with ⟨p, hp, hmap⟩ | ⟨hbcast, -⟩
      · exact hcons.latest p addr mac hp hmap hunicast
      · exact .inr hbcast

/-! ## Steps -/

section

variable {t u : MacTable α} {last : α → Option MacAddr} {seen : Node → Prop} {addr : α}
  {mac : MacAddr}

theorem Consistent.found (h : Consistent P t last)
    (hwalked : MacTable.Walked t u seen addr mac true) (hzero : ∀ q, seen q → q ≠ 0) :
    Consistent P u (update last addr (some mac)) := by
  refine ⟨?_, ?_⟩
  · intro p q a hp hq hpa hqa
    exact h.once p q a hp hq (hwalked.addrOf hpa) (hwalked.addrOf hqa)
  · intro p a c hp hmap hunicast
    by_cases ha : a = addr
    · subst ha
      -- the node with the address is the one that was found
      obtain ⟨q, hq, hqa, hqmap⟩ := hwalked.updated rfl
      have hpa := hwalked.addrOf (MacTable.addrOf_of_mapping hmap)
      obtain rfl := h.once p q a hp (hzero q hq) hpa hqa
      have hmac : mac = c := by
        rw [hmap, some.injEq, Prod.mk.injEq] at hqmap
        exact hqmap.2.symm
      exact .inl (by rw [update_self, hmac])
    · rcases hwalked.kept p a c hmap with hold | ⟨hnew, -⟩
      · rw [update_of_ne ha]
        exact h.latest p a c hp hold hunicast
      · exact absurd hnew ha

theorem consistent_absent_iff (h : Consistent P t last)
    (hwalked : MacTable.Walked t u seen addr mac false) :
    Consistent P u (update last addr (some mac)) ↔
      ∀ p c, p ≠ 0 → t.mapping p = some (addr, c) →
        P.isMulticast addr = true ∨ c = mac ∨ c = broadcastAddr := by
  constructor
  · intro hcons p c hp hmap
    by_cases hmulti : P.isMulticast addr = true
    · exact .inl hmulti
    -- the node is one that the walk has not seen
    have hunseen : ¬ seen p := fun hp =>
      hwalked.absent rfl p hp (MacTable.addrOf_of_mapping hmap)
    have hmap' : u.mapping p = some (addr, c) := (hwalked.unseen p hunseen).trans hmap
    have hlatest := hcons.latest p addr c hp hmap' (by simpa using hmulti)
    rw [update_self, some.injEq] at hlatest
    exact .inr (hlatest.imp_left Eq.symm)
  · intro hold
    refine ⟨?_, ?_⟩
    · intro p q a hp hq hpa hqa
      exact h.once p q a hp hq (hwalked.addrOf hpa) (hwalked.addrOf hqa)
    · intro p a c hp hmap hunicast
      have hmap' := hwalked.mapping_of_absent hmap
      by_cases ha : a = addr
      · subst ha
        rw [update_self, some.injEq]
        rcases hold p c hp hmap' with hmulti | hc
        · rw [hunicast] at hmulti
          cases hmulti
        · exact hc.imp_left Eq.symm
      · -- another address: neither the node nor its latest update has changed
        rw [update_of_ne ha]
        exact h.latest p a c hp hmap' hunicast

theorem consistent_insert_iff (h : Consistent P t last) (hok : t.Ok P) (hoku : u.Ok P)
    (hwalked : MacTable.Walked t u seen addr mac false) (now : BitVec 32) :
    Consistent P (u.insertNode (P.hashIndex addr).castSucc addr mac now)
        (update last addr (some mac)) ↔
      ∀ p, p ≠ 0 → t.addrOf p ≠ some addr := by
  obtain ⟨-, hnew, hother⟩ := hoku.insertNode addr mac now
  have hfresh : u.fresh ≠ 0 := by
    obtain ⟨b, hb, -⟩ := hoku.bcast
    exact Nat.ne_zero_of_lt (hoku.fresh 0 b hb)
  constructor
  · intro hcons p hp hpa
    -- the new node is a second one of the address
    have hunseen : ¬ seen p := fun hseen => hwalked.absent rfl p hseen hpa
    obtain ⟨c, hmap⟩ := MacTable.exists_mapping hpa
    have hne : p ≠ u.fresh := by
      obtain ⟨x, hx, -⟩ := map_eq_some_iff.mp hmap
      rw [hwalked.sameFresh]
      exact (hok.fresh p x hx).ne
    have hmap' := (hother p hne).trans ((hwalked.unseen p hunseen).trans hmap)
    exact hne (hcons.once p u.fresh addr hp hfresh (MacTable.addrOf_of_mapping hmap')
      (MacTable.addrOf_of_mapping hnew))
  · intro hnone
    have haddr : ∀ p a, (u.insertNode (P.hashIndex addr).castSucc addr mac now).addrOf p = some a →
        p = u.fresh ∧ a = addr ∨ t.addrOf p = some a := by
      intro p a hpa
      by_cases hp : p = u.fresh
      · subst hp
        rw [MacTable.addrOf_of_mapping hnew] at hpa
        exact .inl ⟨rfl, (some.inj hpa).symm⟩
      · rw [MacTable.addrOf_eq_mapping, hother p hp, ← MacTable.addrOf_eq_mapping] at hpa
        exact .inr (hwalked.addrOf hpa)
    refine ⟨?_, ?_⟩
    · intro p q a hp hq hpa hqa
      rcases haddr p a hpa with ⟨rfl, rfl⟩ | hpt <;> rcases haddr q a hqa with ⟨rfl, ha⟩ | hqt
      · rfl
      · exact absurd hqt (hnone q hq)
      · exact absurd (ha ▸ hpt) (hnone p hp)
      · exact h.once p q a hp hq hpt hqt
    · intro p a c hp hmap hunicast
      by_cases hpf : p = u.fresh
      · subst hpf
        rw [hnew, some.injEq, Prod.mk.injEq] at hmap
        obtain ⟨rfl, rfl⟩ := hmap
        exact .inl (update_self ..)
      · rw [hother p hpf] at hmap
        have hmap' := hwalked.mapping_of_absent hmap
        have ha : a ≠ addr := by
          rintro rfl
          exact hnone p hp (MacTable.addrOf_of_mapping hmap')
        rw [update_of_ne ha]
        exact h.latest p a c hp hmap' hunicast

end

section

variable (hok : s.table.Ok P) (hcons : Consistent P s.table s.last)

include hok hcons

/-- **An update** keeps the latest mappings exactly if it is ready for it. -/
theorem update_iff (mac : MacAddr) (addr : α) (now : Readings) (alloc : Bool) :
    ∃ s', s.step P (.update mac addr now alloc) = some s' ∧ s'.table.Ok P ∧
      (Consistent P s'.table s'.last ↔ s.Ready P (.update mac addr now alloc)) := by
  obtain ⟨u, found, hoku, hwalked, hupdate⟩ :=
    MacTable.macTableUpdate_spec hok mac addr now alloc
  have hzero : ∀ q, s.table.bucket P q = some (P.hashIndex addr).castSucc → q ≠ 0 := by
    intro q hq
    obtain ⟨l, hchain, -, hmem⟩ := hok.chains (P.hashIndex addr).castSucc
    exact hok.ne_zero hchain ((hmem q).mpr hq)
  simp only [step, hupdate, bind_eq_bind, bind_some]
  cases found with
  | true =>
    refine ⟨_, rfl, hoku, iff_of_true (hcons.found hwalked fun q hq => hzero q hq.1) ?_⟩
    -- the skipped node is not the one that was found
    intro p c hskipped hmap
    obtain ⟨q, ⟨hq, hqskip⟩, hqa, -⟩ := hwalked.updated rfl
    have hp := hzero p (hok.skippedNode_bucket hskipped)
    obtain rfl := hcons.once p q addr hp (hzero q hq) (MacTable.addrOf_of_mapping hmap) hqa
    exact absurd hskipped.symm hqskip
  | false =>
    have hskip : ∀ p, p ≠ 0 → s.table.addrOf p = some addr →
        s.table.skippedNode (P.hashIndex addr).castSucc addr now = some p := by
      intro p hp hpa
      by_contra hne
      exact hwalked.absent rfl p ⟨MacTable.bucket_of_addrOf hp hpa, Ne.symm hne⟩ hpa
    cases alloc with
    | true =>
      refine ⟨_, rfl, (hoku.insertNode addr mac now.insert).1, ?_⟩
      refine (consistent_insert_iff hcons hok hoku hwalked now.insert).trans ?_
      constructor
      · intro hnone p c hskipped hmap
        exact absurd (MacTable.addrOf_of_mapping hmap)
          (hnone p (hzero p (hok.skippedNode_bucket hskipped)))
      · intro hready p hp hpa
        obtain ⟨c, hmap⟩ := MacTable.exists_mapping hpa
        cases (hready p c (hskip p hp hpa) hmap).1
    | false =>
      refine ⟨_, rfl, hoku, (consistent_absent_iff hcons hwalked).trans ?_⟩
      constructor
      · intro hold p c hskipped hmap
        exact ⟨rfl, hold p c (hzero p (hok.skippedNode_bucket hskipped)) hmap⟩
      · intro hready p c hp hmap
        exact (hready p c (hskip p hp (MacTable.addrOf_of_mapping hmap)) hmap).2

/-- **A lookup** keeps the latest mappings. -/
theorem lookUp_kept (addr : α) (now : BitVec 32) :
    ∃ s', s.step P (.lookUp addr now) = some s' ∧ s'.table.Ok P ∧ Consistent P s'.table s'.last := by
  obtain ⟨u, mac, hlookup, hoku, hmap, -⟩ := MacTable.macTableLookUp_spec hok addr now
  simp only [step, hlookup, bind_eq_bind, bind_some]
  refine ⟨_, rfl, hoku, ?_, ?_⟩
  · intro p q a hp hq hpa hqa
    rw [MacTable.addrOf_eq_mapping, hmap, ← MacTable.addrOf_eq_mapping] at hpa hqa
    exact hcons.once p q a hp hq hpa hqa
  · intro p a c hp hpmap hunicast
    exact hcons.latest p a c hp (hmap ▸ hpmap) hunicast

theorem keepsLatest_iff (c : Call α) :
    (∃ s', s.step P c = some s' ∧ s'.table.Ok P ∧ (s.Ready P c → Consistent P s'.table s'.last)) ∧
      (s.KeepsLatest P c ↔ s.Ready P c) := by
  cases c with
  | update mac addr now alloc =>
    obtain ⟨s', hstep, hok', hiff⟩ := update_iff hok hcons mac addr now alloc
    refine ⟨⟨s', hstep, hok', hiff.mpr⟩, ?_⟩
    rw [KeepsLatest, hstep, ← hiff, ← latest_iff hok']
    simp
  | lookUp addr now =>
    obtain ⟨s', hstep, hok', hcons'⟩ := lookUp_kept hok hcons addr now
    exact ⟨⟨s', hstep, hok', fun _ => hcons'⟩,
      iff_of_true ⟨s', hstep, (latest_iff hok').mpr hcons'⟩ trivial⟩

end

/-! ## Runs -/

omit [DecidableEq α] in
theorem consistent_init (P : MatProto α) (zero : α) (last : α → Option MacAddr) :
    Consistent P (macTableInit zero) last := by
  refine ⟨?_, ?_⟩
  · intro p q a hp _ hpa
    rw [MacTable.addrOf, MacTable.macTableInit_node zero hp] at hpa
    cases hpa
  · intro p a mac hp hmap
    rw [MacTable.mapping, MacTable.macTableInit_node zero hp] at hmap
    cases hmap

theorem along_keepsLatest_iff (P : MatProto α) (zero : α) (calls : List (Call α)) :
    Along (stepM (step P)) (OnSome (KeepsLatest P)) (some (init zero)) calls ↔
      Along (stepM (step P)) (OnSome (Ready P)) (some (init zero)) calls := by
  let Inv : Option (History α) → Prop := fun o =>
    ∃ s, o = some s ∧ s.table.Ok P ∧ Consistent P s.table s.last
  have hstep : ∀ o c, Inv o → OnSome (Ready P) o c → Inv (stepM (step P) o c) := by
    rintro _ c ⟨s, rfl, hok, hcons⟩ hready
    obtain ⟨⟨s', hs', hok', hcons'⟩, -⟩ := keepsLatest_iff hok hcons c
    exact ⟨s', hs', hok', hcons' (onSome_some.mp hready)⟩
  apply along_iff_of_invariant calls hstep
  · rintro _ c ⟨s, rfl, hok, hcons⟩
    rw [onSome_some, onSome_some]
    exact (keepsLatest_iff hok hcons c).2
  · exact ⟨init zero, rfl, MacTable.ok_init P zero, consistent_init P zero _⟩

end History

/-- **Latest mappings**: in runs of the calls of both tables, exactly those in which no update
    skips the node of its address. -/
theorem latest_iff_ready (calls : List (Call (BitVec 32))) (calls6 : List (Call Ipv6Addr)) :
    (Along (stepM (History.step matIp)) (OnSome (History.KeepsLatest matIp))
        (some (History.init 0)) calls ↔
      Along (stepM (History.step matIp)) (OnSome (History.Ready matIp))
        (some (History.init 0)) calls) ∧
    (Along (stepM (History.step matIpv6)) (OnSome (History.KeepsLatest matIpv6))
        (some (History.init fun _ => 0)) calls6 ↔
      Along (stepM (History.step matIpv6)) (OnSome (History.Ready matIpv6))
        (some (History.init fun _ => 0)) calls6) :=
  ⟨History.along_keepsLatest_iff matIp 0 calls,
    History.along_keepsLatest_iff matIpv6 (fun _ => 0) calls6⟩

/-- A clock that stands still during a call. -/
def Readings.at (now : BitVec 32) : Readings := ⟨fun _ => now, fun _ => now, now⟩

/-- Station `02:00:00:00:00:n`. -/
def station (n : BitVec 8) : MacAddr := ![2, 0, 0, 0, 0, n]

/-- 10.0.0.1 and 10.3.0.2 are of one hash value.  Five minutes later 10.0.0.1 moves to station 3;
    10.3.0.2 is the aged head of the chain. -/
def movedBehindAgedHead : List (Call (BitVec 32)) :=
  [.update (station 1) 0x0100000a (.at 0) true, .update (station 2) 0x0200030a (.at 0) true,
    .update (station 3) 0x0100000a (.at 80000) true]

/-- The last call frees the newer of the two nodes of 10.0.0.1, so that a lookup finds the older. -/
theorem not_latest_aged_head :
    ¬ Along (stepM (History.step matIp)) (OnSome (History.KeepsLatest matIp))
      (some (History.init 0))
      (movedBehindAgedHead ++ [.update (station 4) 0x0200030a (.at 160000) true]) := by
  intro hrun
  have hlast := hrun.last
  let returned (s : History (BitVec 32)) : Option (Option MacAddr) × Option MacAddr :=
    ((s.table.macTableLookUp matIp 0x0100000a 160000).map Prod.snd, s.last 0x0100000a)
  have hreturned : ((runEvents (stepM (History.step matIp)) (some (History.init 0))
      movedBehindAgedHead).bind fun s =>
        (s.step matIp (.update (station 4) 0x0200030a (.at 160000) true)).map returned) =
      some (some (some (station 1)), some (station 3)) := by
    decide +kernel
  obtain ⟨s, hs, hnext⟩ := Option.bind_eq_some_iff.mp hreturned
  obtain ⟨s', hstep, hret⟩ := Option.map_eq_some_iff.mp hnext
  obtain ⟨hlookup, hmoved⟩ := Prod.mk.inj hret
  obtain ⟨s'', hstep', hlatest⟩ := hlast s hs
  obtain rfl : s' = s'' := Option.some.inj (hstep.symm.trans hstep')
  obtain ⟨u, mac, hmac, hcorrect⟩ := hlatest.latest 0x0100000a 160000 (by decide)
  rw [hmac, Option.map_some, Option.some.injEq, Option.some.injEq] at hlookup
  rw [hmoved, hlookup] at hcorrect
  exact absurd hcorrect (by decide)

end RalinkSdk.Mat
