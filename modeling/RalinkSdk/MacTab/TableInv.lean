import Mathlib.Algebra.BigOperators.Group.Finset.Basic
import Mathlib.Algebra.Order.BigOperators.Group.Finset
import Mathlib.Data.Fintype.Card
import RalinkSdk.MacTab.Table

/-!
# The station table over whole runs

Array, hash chains and counters agree after every run of insertions, deletions and resets, also
of resets that end early.  Deleting and resetting go through the same function, and a chain is
always searched in the bucket of the address that stands in the entry.
-/

namespace RalinkSdk.MacTab

open Lib List Function BitVec Option

/-! ## Counting -/

/-- The number of slots with a property. -/
def count (p : Slot → Prop) [DecidablePred p] : Nat := (Finset.univ.filter p).card

section

variable {p q : Slot → Prop} [DecidablePred p] [DecidablePred q]

theorem count_congr (h : ∀ j, p j ↔ q j) : count p = count q := by
  unfold count
  congr 1
  ext j
  simp [h j]

theorem count_add {i : Slot} (hp : ¬ p i) (hq : q i) (h : ∀ j, j ≠ i → (q j ↔ p j)) :
    count q = count p + 1 := by
  have hinsert : Finset.univ.filter q = insert i (Finset.univ.filter p) := by
    ext j
    by_cases hj : j = i
    · simp [hj, hq]
    · simp [hj, h j hj]
  rw [count, count, hinsert, Finset.card_insert_of_notMem (by simp [hp])]

theorem count_lt {i : Slot} (h : ¬ p i) : count p < 32 := by
  have hlt := Finset.card_lt_univ_of_notMem (s := Finset.univ.filter p) (x := i) (by simp [h])
  simpa [count, maxLenOfMacTable] using hlt

end

namespace MacTable

variable {cfg : ApCfg} {t t' : MacTable} {i : Slot} {addr : BitVec 48}

/-! ## Views of the table -/

def Used (t : MacTable) (i : Slot) : Prop := (t.content i).entryType ≠ .none

/-- The slot holds a client of a BSS. -/
def ClientOf (t : MacTable) (b : Fin hwBeaconMaxNum) (i : Slot) : Prop :=
  (t.content i).entryType = .client ∧ (t.content i).apidx.toNat = b.val

/-- The slot holds a client. -/
def Client (t : MacTable) (i : Slot) : Prop := (t.content i).entryType = .client

instance (t : MacTable) : DecidablePred t.Used := fun i =>
  inferInstanceAs (Decidable ((t.content i).entryType ≠ .none))

instance (t : MacTable) (b : Fin hwBeaconMaxNum) : DecidablePred (t.ClientOf b) := fun i =>
  inferInstanceAs
    (Decidable ((t.content i).entryType = .client ∧ (t.content i).apidx.toNat = b.val))

instance (t : MacTable) : DecidablePred t.Client := fun i =>
  inferInstanceAs (Decidable ((t.content i).entryType = .client))

/-- The links of the hash chains. -/
def next (t : MacTable) (i : Slot) : Option Slot := (t.content i).pNext

/-- The hash chain on which an entry belongs. -/
def bucket (t : MacTable) (i : Slot) : Option (BitVec 8) :=
  if t.Used i then some (macAddrHashIndex (t.content i).addr) else none

/-- What an entry in use is apart from its link and its state. -/
def core (e : MacTableEntry) : Option (EntryType × BitVec 48 × BitVec 16 × BitVec 8) :=
  if e.entryType = .none then none else some (e.entryType, e.addr, e.aid, e.apidx)

/-- Only links, states and entries that are not in use differ. -/
structure SameEntries (t t' : MacTable) : Prop where
  core : ∀ j, core (t'.content j) = core (t.content j)
  size : t'.size = t.size
  staCount : t'.staCount = t.staCount
  entryClientCount : t'.entryClientCount = t.entryClientCount

theorem used_iff_core : t.Used i ↔ (core (t.content i)).isSome := by
  unfold Used core
  split
  · next h => simp [h]
  · next h => simp [h]

theorem SameEntries.used (h : SameEntries t t') (j : Slot) : t'.Used j ↔ t.Used j := by
  rw [used_iff_core, used_iff_core, h.core j]

theorem SameEntries.fields (h : SameEntries t t') {j : Slot} (hj : t.Used j) :
    (t'.content j).entryType = (t.content j).entryType ∧
      (t'.content j).addr = (t.content j).addr ∧ (t'.content j).aid = (t.content j).aid ∧
      (t'.content j).apidx = (t.content j).apidx := by
  have hcore := h.core j
  have hj' : (t'.content j).entryType ≠ .none := (h.used j).mpr hj
  have hj₀ : (t.content j).entryType ≠ .none := hj
  simpa [MacTable.core, hj', hj₀] using hcore

theorem Client.used (h : t.Client i) : t.Used i := by
  rw [Used, show (t.content i).entryType = .client from h]
  decide

theorem SameEntries.client (h : SameEntries t t') (j : Slot) : t'.Client j ↔ t.Client j := by
  constructor
  · intro hj
    exact (h.fields ((h.used j).mp hj.used)).1.symm.trans hj
  · intro hj
    exact (h.fields hj.used).1.trans hj

theorem SameEntries.clientOf (h : SameEntries t t') (b : Fin hwBeaconMaxNum) (j : Slot) :
    t'.ClientOf b j ↔ t.ClientOf b j := by
  constructor
  · rintro ⟨hj, hb⟩
    have hfields := h.fields ((h.used j).mp (Client.used hj))
    exact ⟨hfields.1.symm.trans hj, hfields.2.2.2 ▸ hb⟩
  · rintro ⟨hj, hb⟩
    have hfields := h.fields (Client.used hj)
    exact ⟨hfields.1.trans hj, hfields.2.2.2 ▸ hb⟩

/-! ## The invariant -/

/-- The entries and the counters: slot 0 is not used, every entry in use knows its slot, no two
    have the same address, clients belong to a BSS, and everything is counted. -/
structure Counted (cfg : ApCfg) (t : MacTable) : Prop where
  zero : ¬ t.Used ⟨0, by decide⟩
  aid : ∀ i, t.Used i → (t.content i).aid.toNat = i.val
  distinct : ∀ i j, t.Used i → t.Used j → (t.content i).addr = (t.content j).addr → i = j
  bss : ∀ i, t.Client i → (t.content i).apidx.toNat < cfg.bssidNum ∧
    (t.content i).apidx.toNat < cfg.maxMbssidNum ∧ (t.content i).apidx.toNat < hwBeaconMaxNum
  size : t.size.toNat = count t.Used
  staCount : ∀ b, (t.staCount b).toNat = count (t.ClientOf b)
  clients : t.entryClientCount.toNat = count t.Client
  limit : ∀ b, cfg.maxStaNum b ≠ 0 → t.staCount b ≤ cfg.maxStaNum b

/-- The entries and the counters, and every entry in use is on the hash chain of its address,
    once, and no other is on a chain. -/
structure Ok (cfg : ApCfg) (t : MacTable) : Prop where
  counted : t.Counted cfg
  hash : HashChains t.next t.hash t.bucket

theorem Counted.congr (h : t.Counted cfg) (hsame : SameEntries t t') : t'.Counted cfg := by
  refine ⟨?_, ?_, ?_, ?_, ?_, ?_, ?_, ?_⟩
  · rw [hsame.used]
    exact h.zero
  · intro j hj
    have hj₀ := (hsame.used j).mp hj
    rw [(hsame.fields hj₀).2.2.1]
    exact h.aid j hj₀
  · intro j k hj hk
    have hj₀ := (hsame.used j).mp hj
    have hk₀ := (hsame.used k).mp hk
    rw [(hsame.fields hj₀).2.1, (hsame.fields hk₀).2.1]
    exact h.distinct j k hj₀ hk₀
  · intro j hj
    have hj₀ := (hsame.client j).mp hj
    rw [(hsame.fields hj₀.used).2.2.2]
    exact h.bss j hj₀
  · rw [hsame.size, count_congr hsame.used]
    exact h.size
  · intro b
    rw [hsame.staCount, count_congr (hsame.clientOf b)]
    exact h.staCount b
  · rw [hsame.entryClientCount, count_congr hsame.client]
    exact h.clients
  · rw [hsame.staCount]
    exact h.limit

theorem bucket_congr (hsame : SameEntries t t') : t'.bucket = t.bucket := by
  funext j
  by_cases hj : t.Used j
  · rw [bucket, bucket, if_pos hj, if_pos ((hsame.used j).mpr hj), (hsame.fields hj).2.1]
  · rw [bucket, bucket, if_neg hj, if_neg fun h => hj ((hsame.used j).mp h)]

theorem bucket_eq_some {k : BitVec 8} :
    t.bucket i = some k ↔ t.Used i ∧ macAddrHashIndex (t.content i).addr = k := by
  unfold bucket
  split
  · next h => simp [h]
  · next h => simp [h]

theorem init_ok : init.Ok cfg := by
  have hused : ∀ j, ¬ init.Used j := fun j h => h rfl
  have hzero : ∀ (p : Slot → Prop) [DecidablePred p], (∀ j, ¬ p j) → count p = 0 := by
    intro p _ hp
    simp [count, hp]
  refine ⟨⟨hused _, ?_, ?_, ?_, ?_, ?_, ?_, ?_⟩, HashChains.empty (fun _ => rfl) ?_⟩
  · exact fun j hj => absurd hj (hused j)
  · exact fun j k hj => absurd hj (hused j)
  · exact fun j hj => absurd (show EntryType.none = .client from hj) (by decide)
  · rw [hzero _ hused]
    rfl
  · intro b
    rw [hzero _ fun j hj => absurd (show EntryType.none = .client from hj.1) (by decide)]
    rfl
  · rw [hzero init.Client fun j hj => absurd (show EntryType.none = .client from hj) (by decide)]
    rfl
  · exact fun b _ => le_def.mpr (Nat.zero_le _)
  · intro j
    simp [bucket, hused j]

/-! ## Chains -/

theorem chain_length {l : List Slot} (hnodup : l.Nodup) : l.length < maxLenOfMacTable + 1 := by
  have hcard := hnodup.length_le_card
  simp at hcard
  omega

theorem next_put (t : MacTable) (i : Slot) (e : MacTableEntry) :
    (t.put i e).next = update t.next i e.pNext := by
  funext j
  by_cases hj : j = i
  · simp [next, put, hj]
  · simp [next, put, hj]

theorem sameEntries_put_pNext (t : MacTable) (i : Slot) (r : Option Slot) :
    SameEntries t (t.put i { t.content i with pNext := r }) := by
  refine ⟨fun j => ?_, rfl, rfl, rfl⟩
  by_cases hj : j = i
  · simp [put, core, hj]
  · simp [put, hj]

/-- **Linking**: an entry in use that is on no chain goes to the end of its own. -/
theorem linkEntry_spec {bucket : Slot → Option (BitVec 8)}
    (h : HashChains t.next t.hash bucket) (hi : bucket i = none)
    (hnull : (t.content i).pNext = none) (addr : BitVec 48) :
    ∃ t', t.linkEntry i addr = some t' ∧ SameEntries t t' ∧
      HashChains t'.next t'.hash (update bucket i (some (macAddrHashIndex addr))) := by
  obtain ⟨l, hchain, hnodup, -⟩ := h (macAddrHashIndex addr)
  rcases eq_nil_or_concat l with rfl | ⟨front, last, rfl⟩
  · have hempty : t.hash (macAddrHashIndex addr) = none := hchain
    refine ⟨{ t with hash := update t.hash (macAddrHashIndex addr) (some i) }, ?_,
      ⟨fun _ => rfl, rfl, rfl, rfl⟩, ?_⟩
    · simp [linkEntry, hempty]
    · exact h.push hi _ (hnull.trans hempty.symm) fun _ _ => rfl
  · rw [concat_eq_append] at hchain hnodup
    obtain ⟨first, hfirst⟩ : ∃ first, t.hash (macAddrHashIndex addr) = some first := by
      rw [Chain.head hchain]
      cases front with
      | nil => exact ⟨last, rfl⟩
      | cons a front => exact ⟨a, rfl⟩
    obtain ⟨r, hseg, hr⟩ := chain_append.mp hchain
    have hlast : (t.content last).pNext = none := hr.2
    -- the nodes before the last one have a link
    have hfront : ∀ j ∈ front, ∃ e, t.read j = some e ∧ decide (e.pNext = none) = false := by
      intro j hj
      refine ⟨t.content j, rfl, decide_eq_false ?_⟩
      obtain ⟨pre, post, rfl⟩ := append_of_mem hj
      obtain ⟨x, -, hx⟩ := seg_append.mp hseg
      intro hend
      have hpost : Seg t.next (t.next j) post r := hx.2
      rw [show t.next j = none from hend] at hpost
      cases post with
      | nil => exact absurd (hpost.trans hr.1) (by simp)
      | cons b post => exact absurd hpost.1 (by simp)
    have hlen := chain_length hnodup
    have hshort : front.length < maxLenOfMacTable + 1 := by
      rw [length_append] at hlen
      omega
    have hfollow : follow t.read MacTableEntry.pNext (fun _ e => e.pNext = none)
        (maxLenOfMacTable + 1) none (some first) = some (front.getLast?.or none, some last) := by
      rw [← hfirst]
      exact follow_found hchain hfront rfl (decide_eq_true hlast) hshort
    refine ⟨t.put last { t.content last with pNext := some i }, ?_,
      sameEntries_put_pNext t last _, ?_⟩
    · simp only [linkEntry, hfirst, hfollow, bind, bind_some]
    · rw [next_put]
      exact h.append hi hchain hnull

/-- **Unlinking**: an entry leaves its chain. -/
theorem unlinkEntry_spec (h : HashChains t.next t.hash t.bucket) (hi : t.Used i) :
    ∃ t', t.unlinkEntry i (t.content i).addr = some t' ∧ SameEntries t t' ∧
      HashChains t'.next t'.hash (update t.bucket i none) := by
  obtain ⟨l, hchain, hnodup, hmem⟩ := h (macAddrHashIndex (t.content i).addr)
  obtain ⟨front, back, rfl⟩ := append_of_mem ((hmem i).mpr (bucket_eq_some.mpr ⟨hi, rfl⟩))
  have hout : i ∉ front := by
    have hmid := nodup_middle.mp hnodup
    rw [nodup_cons] at hmid
    exact fun hmem => hmid.1 (mem_append_left _ hmem)
  have hread : ∀ j ∈ front, ∃ e, t.read j = some e ∧ decide (j = i) = false := by
    intro j hj
    exact ⟨t.content j, rfl, decide_eq_false (ne_of_mem_of_not_mem hj hout)⟩
  have hlen := chain_length hnodup
  have hshort : front.length < maxLenOfMacTable + 1 := by
    rw [length_append] at hlen
    omega
  have hfollow : follow t.read MacTableEntry.pNext (fun j _ => j = i) (maxLenOfMacTable + 1) none
      (t.hash (macAddrHashIndex (t.content i).addr)) = some (front.getLast?.or none, some i) :=
    follow_found hchain hread rfl (decide_eq_true rfl) hshort
  rcases eq_nil_or_concat front with rfl | ⟨init, last, rfl⟩
  · let hash := update t.hash (macAddrHashIndex (t.content i).addr) (t.content i).pNext
    refine ⟨{ t with hash }, ?_, ⟨fun _ => rfl, rfl, rfl, rfl⟩, ?_⟩
    · simp [unlinkEntry, hfollow, hash]
    · exact h.unlink_head hchain
  · have hprev : (init.concat last).getLast?.or none = some last := by simp
    rw [hprev] at hfollow
    have hchain' : Chain t.next (t.hash (macAddrHashIndex (t.content i).addr))
        (init ++ last :: i :: back) := by simpa using hchain
    refine ⟨t.put last { t.content last with pNext := (t.content i).pNext }, ?_,
      sameEntries_put_pNext t last _, ?_⟩
    · simp [unlinkEntry, hfollow]
    · rw [next_put]
      exact h.unlink hchain'

/-! ## Lookup -/

/-- **Lookup** returns the entry of the address if there is one. -/
theorem Ok.lookup (h : t.Ok cfg) (addr : BitVec 48) : ∃ r, t.macTableLookup addr = some r ∧
      ∀ i, r = some i ↔ t.Used i ∧ (t.content i).addr = addr := by
  obtain ⟨l, hchain, hnodup, hmem⟩ := h.hash (macAddrHashIndex addr)
  have hlen := chain_length hnodup
  have hskip : ∀ j ∈ l, (t.content j).addr ≠ addr → ∃ e, t.read j = some e ∧
      decide (e.entryType = .none ∨ e.addr = addr) = false := by
    intro j hj hne
    have hused := (bucket_eq_some.mp ((hmem j).mp hj)).1
    exact ⟨t.content j, rfl, decide_eq_false (not_or.mpr ⟨hused, hne⟩)⟩
  by_cases hex : ∃ i, t.Used i ∧ (t.content i).addr = addr
  · obtain ⟨i, hi, haddr⟩ := hex
    have honly : ∀ j, t.Used j ∧ (t.content j).addr = addr ↔ j = i := by
      intro j
      constructor
      · rintro ⟨hj, hja⟩
        exact h.counted.distinct j i hj hi (hja.trans haddr.symm)
      · rintro rfl
        exact ⟨hi, haddr⟩
    have hil : i ∈ l := (hmem i).mpr (bucket_eq_some.mpr ⟨hi, by rw [haddr]⟩)
    obtain ⟨front, back, rfl⟩ := append_of_mem hil
    have hfront : ∀ j ∈ front, ∃ e, t.read j = some e ∧
        decide (e.entryType = .none ∨ e.addr = addr) = false := by
      intro j hj
      have hjl : j ∈ front ++ i :: back := mem_append_left _ hj
      apply hskip j hjl
      intro hja
      have hji := (honly j).mp ⟨(bucket_eq_some.mp ((hmem j).mp hjl)).1, hja⟩
      have hmid := nodup_middle.mp hnodup
      rw [nodup_cons] at hmid
      exact hmid.1 (mem_append_left _ (hji ▸ hj))
    have hshort : front.length < maxLenOfMacTable + 1 := by
      rw [length_append] at hlen
      omega
    have hfollow : follow t.read MacTableEntry.pNext
        (fun _ e => e.entryType = .none ∨ e.addr = addr) (maxLenOfMacTable + 1) none
        (t.hash (macAddrHashIndex addr)) = some (front.getLast?.or none, some i) :=
      follow_found hchain hfront rfl (decide_eq_true (.inr haddr)) hshort
    refine ⟨some i, by rw [macTableLookup, hfollow]; rfl, ?_⟩
    intro j
    rw [honly j, Option.some.injEq]
    exact eq_comm
  · have hnone : ∀ j ∈ l, (t.content j).addr ≠ addr := by
      intro j hj hja
      exact hex ⟨j, (bucket_eq_some.mp ((hmem j).mp hj)).1, hja⟩
    have hfollow : follow t.read MacTableEntry.pNext
        (fun _ e => e.entryType = .none ∨ e.addr = addr) (maxLenOfMacTable + 1) none
        (t.hash (macAddrHashIndex addr)) = some (l.getLast?.or none, none) :=
      follow_not_found hchain (fun j hj => hskip j hj (hnone j hj)) hlen
    refine ⟨none, by rw [macTableLookup, hfollow]; rfl, ?_⟩
    intro j
    exact iff_of_false (by simp) fun hj => hex ⟨j, hj⟩

/-! ## Insertion -/

/-- The index of a BSS, of a WDS link or of an AP client. -/
def ValidIndex (cfg : ApCfg) (apidx : Nat) : Prop :=
  entryTypeOf apidx = .client →
    apidx < cfg.bssidNum ∧ apidx < cfg.maxMbssidNum ∧ apidx < hwBeaconMaxNum

theorem used_put (t : MacTable) (i : Slot) (e : MacTableEntry) (j : Slot) :
    (t.put i e).Used j ↔ if j = i then e.entryType ≠ .none else t.Used j := by
  by_cases hj : j = i
  · simp [Used, put, hj]
  · simp [Used, put, hj]

theorem client_put (t : MacTable) (i : Slot) (e : MacTableEntry) (j : Slot) :
    (t.put i e).Client j ↔ if j = i then e.entryType = .client else t.Client j := by
  by_cases hj : j = i
  · simp [Client, put, hj]
  · simp [Client, put, hj]

theorem clientOf_put (t : MacTable) (i : Slot) (e : MacTableEntry) (b : Fin hwBeaconMaxNum)
    (j : Slot) : (t.put i e).ClientOf b j ↔
      if j = i then e.entryType = .client ∧ e.apidx.toNat = b.val else t.ClientOf b j := by
  by_cases hj : j = i
  · simp [ClientOf, put, hj]
  · simp [ClientOf, put, hj]

theorem freeSlot_spec (h : t.freeSlot = some i) : i ≠ ⟨0, by decide⟩ ∧ ¬ t.Used i := by
  have hfree := find?_some h
  simp only [Bool.decide_and, Bool.and_eq_true, decide_eq_true_eq] at hfree
  refine ⟨?_, fun hused => hused hfree.2⟩
  rintro rfl
  exact absurd hfree.1 (by decide)

theorem toNat_add_one {w : Nat} (hw : 8 ≤ w) {x : BitVec w} {n : Nat} (hx : x.toNat = n)
    (hn : n < 32) : (x + 1).toNat = n + 1 := by
  have hpow : 2 ^ 8 ≤ 2 ^ w := Nat.pow_le_pow_right (by decide) hw
  have hone : (1 : BitVec w).toNat = 1 := toNat_one (lt_of_lt_of_le (by decide) hw)
  rw [toNat_add, hone, hx, Nat.mod_eq_of_lt (by omega)]

theorem toNat_sub_one {w : Nat} (hw : 8 ≤ w) {x : BitVec w} {n : Nat} (hx : x.toNat = n + 1) :
    (x - 1).toNat = n := by
  have hlt := x.isLt
  have hpow : 2 ^ 8 ≤ 2 ^ w := Nat.pow_le_pow_right (by decide) hw
  have hone : (1 : BitVec w).toNat = 1 := toNat_one (lt_of_lt_of_le (by decide) hw)
  rw [toNat_sub_of_le (by rw [le_def, hone]; omega), hone, hx]
  omega

theorem toNat_removed {w : Nat} (hw : 8 ≤ w) {p q : Slot → Prop} [DecidablePred p]
    [DecidablePred q] {i : Slot} (hgone : ¬ p i) (hsame : ∀ j, j ≠ i → (q j ↔ p j))
    {c c' : BitVec w} (hc : c.toNat = count q) (hc' : c' = if q i then c - 1 else c) :
    c'.toNat = count p ∧ c'.toNat ≤ c.toNat := by
  by_cases hi : q i
  · have hone : c.toNat = count p + 1 := hc.trans (count_add hgone hi hsame)
    have hsub : c'.toNat = count p := by
      rw [hc', if_pos hi]
      exact toNat_sub_one hw hone
    exact ⟨hsub, by omega⟩
  · rw [if_neg hi] at hc'
    subst hc'
    refine ⟨hc.trans (count_congr fun j => ?_), le_rfl⟩
    by_cases hj : j = i
    · rw [hj]
      exact iff_of_false hi hgone
    · exact hsame j hj

theorem Counted.entries_put (h : t.Counted cfg) (hi : i ≠ ⟨0, by decide⟩)
    {e : MacTableEntry} (haid : e.aid.toNat = i.val)
    (hnew : ∀ j, t.Used j → (t.content j).addr ≠ e.addr)
    (hbss : e.entryType = .client → e.apidx.toNat < cfg.bssidNum ∧
      e.apidx.toNat < cfg.maxMbssidNum ∧ e.apidx.toNat < hwBeaconMaxNum) :
    ¬ (t.put i e).Used ⟨0, by decide⟩ ∧
    (∀ j, (t.put i e).Used j → ((t.put i e).content j).aid.toNat = j.val) ∧
    (∀ j k, (t.put i e).Used j → (t.put i e).Used k →
      ((t.put i e).content j).addr = ((t.put i e).content k).addr → j = k) ∧
    (∀ j, (t.put i e).Client j → ((t.put i e).content j).apidx.toNat < cfg.bssidNum ∧
      ((t.put i e).content j).apidx.toNat < cfg.maxMbssidNum ∧
      ((t.put i e).content j).apidx.toNat < hwBeaconMaxNum) := by
  have hself : (t.put i e).content i = e := update_self ..
  have hother : ∀ j, j ≠ i → (t.put i e).content j = t.content j := fun j hj =>
    update_of_ne hj _ _
  have hused : ∀ j, j ≠ i → (t.put i e).Used j → t.Used j := by
    intro j hj hju
    rwa [used_put, if_neg hj] at hju
  refine ⟨?_, ?_, ?_, ?_⟩
  · rw [used_put, if_neg hi.symm]
    exact h.zero
  · intro j hj
    by_cases hji : j = i
    · rw [hji, hself]
      exact haid
    · rw [hother j hji]
      exact h.aid j (hused j hji hj)
  · intro j k hj hk heq
    by_cases hji : j = i
    · by_cases hki : k = i
      · rw [hji, hki]
      · rw [hji, hself, hother k hki] at heq
        exact absurd heq.symm (hnew k (hused k hki hk))
    · by_cases hki : k = i
      · rw [hki, hself, hother j hji] at heq
        exact absurd heq (hnew j (hused j hji hj))
      · rw [hother j hji, hother k hki] at heq
        exact h.distinct j k (hused j hji hj) (hused k hki hk) heq
  · intro j hj
    rw [client_put] at hj
    by_cases hji : j = i
    · rw [hji, hself]
      exact hbss (by simpa [hji] using hj)
    · rw [hother j hji]
      exact h.bss j (by simpa [hji] using hj)

theorem countOf_le (b : Fin hwBeaconMaxNum) (h : t.Counted cfg) : count (t.ClientOf b) < 32 :=
  count_lt fun hb => h.zero (Client.used hb.1)

theorem Counted.add_other (h : t.Counted cfg) (hi : i ≠ ⟨0, by decide⟩) (hfree : ¬ t.Used i)
    {e : MacTableEntry} (haid : e.aid.toNat = i.val) (htype : e.entryType ≠ .none)
    (hother : e.entryType ≠ .client) (hnew : ∀ j, t.Used j → (t.content j).addr ≠ e.addr) :
    Counted cfg { t.put i e with size := t.size + 1 } := by
  obtain ⟨hzero, haids, hdistinct, hbss⟩ := h.entries_put hi haid hnew fun hc => absurd hc hother
  have hclient : ∀ j, (t.put i e).Client j ↔ t.Client j := by
    intro j
    rw [client_put]
    split
    · next hj =>
      subst hj
      exact iff_of_false hother fun hc => hfree hc.used
    · rfl
  have hclientOf : ∀ b j, (t.put i e).ClientOf b j ↔ t.ClientOf b j := by
    intro b j
    rw [clientOf_put]
    split
    · next hj =>
      subst hj
      exact iff_of_false (fun hc => hother hc.1) fun hc => hfree (Client.used hc.1)
    · rfl
  have hcount : count (t.put i e).Used = count t.Used + 1 :=
    count_add hfree (by rw [used_put, if_pos rfl]; exact htype)
      fun j hj => by rw [used_put, if_neg hj]
  refine ⟨hzero, haids, hdistinct, hbss, ?_, ?_, ?_, h.limit⟩
  · show (t.size + 1).toNat = count (t.put i e).Used
    rw [hcount, toNat_add_one (by decide) h.size (count_lt hfree)]
  · intro b
    show (t.staCount b).toNat = count ((t.put i e).ClientOf b)
    rw [count_congr (hclientOf b)]
    exact h.staCount b
  · show t.entryClientCount.toNat = count (t.put i e).Client
    rw [count_congr hclient]
    exact h.clients

theorem Counted.add_client (h : t.Counted cfg) (hi : i ≠ ⟨0, by decide⟩) (hfree : ¬ t.Used i)
    {e : MacTableEntry} (haid : e.aid.toNat = i.val) (htype : e.entryType = .client)
    {b : Fin hwBeaconMaxNum} (hb : e.apidx.toNat = b.val) (hbssid : b.val < cfg.bssidNum)
    (hmax : b.val < cfg.maxMbssidNum)
    (hroom : cfg.maxStaNum b ≠ 0 → t.staCount b < cfg.maxStaNum b)
    (hnew : ∀ j, t.Used j → (t.content j).addr ≠ e.addr) :
    Counted cfg { t.put i e with
      staCount := update t.staCount b (t.staCount b + 1)
      entryClientCount := t.entryClientCount + 1
      size := t.size + 1 } := by
  obtain ⟨hzero, haids, hdistinct, hbss⟩ := h.entries_put hi haid hnew fun _ => by
    rw [hb]
    exact ⟨hbssid, hmax, b.isLt⟩
  have hnone : e.entryType ≠ .none := by
    rw [htype]
    decide
  have hused : count (t.put i e).Used = count t.Used + 1 :=
    count_add hfree (by rw [used_put, if_pos rfl]; exact hnone)
      fun j hj => by rw [used_put, if_neg hj]
  have hclients : count (t.put i e).Client = count t.Client + 1 :=
    count_add (fun hc => hfree hc.used) (by rw [client_put, if_pos rfl]; exact htype)
      fun j hj => by rw [client_put, if_neg hj]
  have hown : count ((t.put i e).ClientOf b) = count (t.ClientOf b) + 1 :=
    count_add (fun hc => hfree (Client.used hc.1))
      (by rw [clientOf_put, if_pos rfl]; exact ⟨htype, hb⟩)
      fun j hj => by rw [clientOf_put, if_neg hj]
  have hcountb : (t.staCount b + 1).toNat = count (t.ClientOf b) + 1 :=
    toNat_add_one (by decide) (h.staCount b) (countOf_le b h)
  refine ⟨hzero, haids, hdistinct, hbss, ?_, ?_, ?_, ?_⟩
  · show (t.size + 1).toNat = count (t.put i e).Used
    rw [hused, toNat_add_one (by decide) h.size (count_lt hfree)]
  · intro b'
    show (update t.staCount b (t.staCount b + 1) b').toNat =
      count ((t.put i e).ClientOf b')
    by_cases hbb : b' = b
    · rw [hbb, update_self, hown]
      exact hcountb
    · have hsame : ∀ j, (t.put i e).ClientOf b' j ↔ t.ClientOf b' j := by
        intro j
        rw [clientOf_put]
        split
        · next hj =>
          subst hj
          refine iff_of_false ?_ fun hc => hfree (Client.used hc.1)
          rintro ⟨-, hb'⟩
          exact hbb (Fin.ext (hb'.symm.trans hb))
        · rfl
      rw [update_of_ne hbb, count_congr hsame]
      exact h.staCount b'
  · show (t.entryClientCount + 1).toNat = count (t.put i e).Client
    rw [hclients, toNat_add_one (by decide) h.clients (count_lt fun hc => hfree hc.used)]
  · intro b' hb'
    show update t.staCount b (t.staCount b + 1) b' ≤ cfg.maxStaNum b'
    by_cases hbb : b' = b
    · subst hbb
      have hlt := lt_def.mp (hroom hb')
      rw [update_self, le_def, hcountb, ← h.staCount b']
      omega
    · rw [update_of_ne hbb]
      exact h.limit b' hb'

theorem Ok.link (h : t.Ok cfg) (hfree : ¬ t.Used i) {t₁ : MacTable} (hcounted : t₁.Counted cfg)
    {e : MacTableEntry} (hcontent : t₁.content = update t.content i e)
    (hhash : t₁.hash = t.hash) (htype : e.entryType ≠ .none) (hnull : e.pNext = none) :
    ∃ t', t₁.linkEntry i e.addr = some t' ∧ t'.Ok cfg := by
  have hbucket : t.bucket i = none := if_neg hfree
  have hnext : t₁.next = update t.next i none := by
    rw [← hnull, ← next_put]
    funext j
    rw [next, hcontent]
    rfl
  have hchains : HashChains t₁.next t₁.hash t.bucket := by
    rw [hnext, hhash]
    apply h.hash.congr
    intro j hj
    have hji : j ≠ i := by
      rintro rfl
      simp [hbucket] at hj
    exact update_of_ne hji _ _
  have hnull₁ : (t₁.content i).pNext = none := by
    rw [hcontent, update_self]
    exact hnull
  obtain ⟨t', hlink, hsame, hchains'⟩ := linkEntry_spec hchains hbucket hnull₁ e.addr
  refine ⟨t', hlink, hcounted.congr hsame, ?_⟩
  have hbuckets : t₁.bucket = update t.bucket i (some (macAddrHashIndex e.addr)) := by
    funext j
    by_cases hj : j = i
    · subst hj
      simp [bucket, Used, hcontent, htype]
    · have hused : t₁.Used j ↔ t.Used j := by
        rw [Used, Used, hcontent, update_of_ne hj]
      simp only [bucket, hused, hcontent, update_of_ne hj]
  rw [bucket_congr hsame, hbuckets]
  exact hchains'

theorem entryTypeOf_ne_none (apidx : Nat) : entryTypeOf apidx ≠ .none := by
  unfold entryTypeOf
  split
  · decide
  · split
    · decide
    · decide

theorem Ok.put_zeroEntry (h : t.Ok cfg) (hfree : ¬ t.Used i) : (t.put i zeroEntry).Ok cfg := by
  have hsame : SameEntries t (t.put i zeroEntry) := by
    refine ⟨fun j => ?_, rfl, rfl, rfl⟩
    by_cases hj : j = i
    · subst hj
      have hnone : (t.content j).entryType = .none := not_not.mp hfree
      simp [put, core, zeroEntry, hnone]
    · simp [put, hj]
  refine ⟨h.counted.congr hsame, ?_⟩
  rw [bucket_congr hsame, next_put]
  apply h.hash.congr
  intro j hj
  have hji : j ≠ i := by
    rintro rfl
    simp [bucket, hfree] at hj
  exact update_of_ne hji _ _

theorem lt_maxStaNum {apidx : Nat} (hbss : ¬ bssFull cfg t apidx = true)
    (hhw : apidx < hwBeaconMaxNum) (hbssid : apidx < cfg.bssidNum) (hmax : apidx < cfg.maxMbssidNum)
    (hne : cfg.maxStaNum ⟨apidx, hhw⟩ ≠ 0) :
    t.staCount ⟨apidx, hhw⟩ < cfg.maxStaNum ⟨apidx, hhw⟩ := by
  apply BitVec.not_le.mp
  intro hle
  apply hbss
  rw [bssFull, dif_pos hhw]
  exact decide_eq_true ⟨hbssid, hmax, hne, hle⟩

def newEntry (apidx : Nat) (addr : BitVec 48) (i : Slot) : MacTableEntry :=
  ⟨entryTypeOf apidx, none, addr, BitVec.ofNat 16 i.val, keptApidx apidx, .notAuth⟩

theorem newEntry_aid (apidx : Nat) (addr : BitVec 48) (i : Slot) :
    (newEntry apidx addr i).aid.toNat = i.val := by
  have hlt : i.val < 32 := i.isLt
  simp only [newEntry, toNat_ofNat]
  exact Nat.mod_eq_of_lt (by omega)

theorem Ok.admit (h : t.Ok cfg) {apidx : Nat} (hindex : ValidIndex cfg apidx)
    (hnew : ∀ j, t.Used j → (t.content j).addr ≠ addr) (hi : i ≠ ⟨0, by decide⟩)
    (hfree : ¬ t.Used i) (hroom : ¬ (entryTypeOf apidx = .client ∧ bssFull cfg t apidx = true)) :
    ∃ t₁, (if entryTypeOf apidx = .client then (t.put i (newEntry apidx addr i)).countClient cfg apidx
        else some (t.put i (newEntry apidx addr i))) = some t₁ ∧
      Counted cfg { t₁ with size := t₁.size + 1 } ∧
      t₁.content = update t.content i (newEntry apidx addr i) ∧ t₁.hash = t.hash := by
  by_cases hclient : entryTypeOf apidx = .client
  · obtain ⟨hbssid, hmax, hhw⟩ := hindex hclient
    have hbss : ¬ bssFull cfg t apidx = true := fun hfull => hroom ⟨hclient, hfull⟩
    have hsanity : sanityApidx cfg apidx = apidx := if_neg (by omega)
    have hkept : (newEntry apidx addr i).apidx.toNat = apidx := by
      simp only [newEntry, keptApidx, hclient, toNat_ofNat]
      exact Nat.mod_eq_of_lt (lt_trans hhw (by decide))
    have hcounted := h.counted.add_client hi hfree (newEntry_aid apidx addr i) hclient
      (b := ⟨apidx, hhw⟩) hkept hbssid hmax (lt_maxStaNum hbss hhw hbssid hmax) hnew
    refine ⟨{ t.put i (newEntry apidx addr i) with
      staCount := update t.staCount ⟨apidx, hhw⟩ (t.staCount ⟨apidx, hhw⟩ + 1)
      entryClientCount := t.entryClientCount + 1 }, ?_, hcounted, rfl, rfl⟩
    rw [if_pos hclient]
    simp only [countClient, hsanity, dif_pos hhw]
    rfl
  · rw [if_neg hclient]
    have hcounted := h.counted.add_other hi hfree (newEntry_aid apidx addr i)
      (entryTypeOf_ne_none apidx) hclient hnew
    exact ⟨t.put i (newEntry apidx addr i), rfl, hcounted, rfl, rfl⟩

/-- **`MacTableInsertEntry`** keeps the table consistent. -/
theorem Ok.insert (h : t.Ok cfg) {apidx : Nat} (hindex : ValidIndex cfg apidx)
    (hnew : ∀ j, t.Used j → (t.content j).addr ≠ addr) :
    ∃ r t', t.macTableInsertEntry cfg addr apidx = some (r, t') ∧ t'.Ok cfg := by
  unfold macTableInsertEntry
  by_cases hfull : maxLenOfMacTable ≤ t.size.toNat
  · exact ⟨none, t, if_pos hfull, h⟩
  rw [if_neg hfull]
  cases hslot : t.freeSlot with
  | none => exact ⟨none, t, rfl, h⟩
  | some i =>
    obtain ⟨hi, hfree⟩ := freeSlot_spec hslot
    by_cases hbss : entryTypeOf apidx = .client ∧ bssFull cfg t apidx = true
    · -- the entry has been zeroed, but it was not in use
      exact ⟨none, t.put i zeroEntry, if_pos hbss, h.put_zeroEntry hfree⟩
    · obtain ⟨t₁, hcount, hcounted, hcontent, hhash⟩ := h.admit hindex hnew hi hfree hbss
      obtain ⟨t', hlink, hok⟩ :=
        h.link hfree hcounted hcontent hhash (entryTypeOf_ne_none apidx) rfl
      refine ⟨some i, t', ?_, hok⟩
      have hdone := congrArg (fun r => Option.bind r fun t => some (some i, t)) hlink
      simp only [if_neg hbss]
      rw [← newEntry]
      split at hcount
      · next hclient =>
        rw [if_pos hclient, hcount]
        exact hdone
      · next hclient =>
        rw [if_neg hclient, hcount]
        exact hdone

/-! ## Deletion -/

theorem Counted.remove (h : t.Counted cfg) (hi : t.Used i) {t' : MacTable}
    (hsame : ∀ j, j ≠ i → core (t'.content j) = core (t.content j)) (hgone : ¬ t'.Used i)
    (hsize : t'.size = t.size - 1) (hsta : ∀ b, t'.staCount b =
      if t.ClientOf b i then t.staCount b - 1 else t.staCount b) (hclients : t'.entryClientCount =
      if t.Client i then t.entryClientCount - 1 else t.entryClientCount) : t'.Counted cfg := by
  -- seen from the other side, the entry is new
  have hview : ∀ j, j ≠ i → SameEntries
      { t with content := fun _ => t.content j } { t with content := fun _ => t'.content j } :=
    fun j hj => ⟨fun _ => hsame j hj, rfl, rfl, rfl⟩
  have hused : ∀ j, j ≠ i → (t.Used j ↔ t'.Used j) := fun j hj => ((hview j hj).used j).symm
  have hclient : ∀ j, j ≠ i → (t.Client j ↔ t'.Client j) := fun j hj =>
    ((hview j hj).client j).symm
  have hclientOf : ∀ b j, j ≠ i → (t.ClientOf b j ↔ t'.ClientOf b j) := fun b j hj =>
    ((hview j hj).clientOf b j).symm
  have hne : ∀ j, t'.Used j → j ≠ i := by
    rintro j hj rfl
    exact hgone hj
  have hfields : ∀ j, t'.Used j → (t'.content j).addr = (t.content j).addr ∧
      (t'.content j).aid = (t.content j).aid ∧ (t'.content j).apidx = (t.content j).apidx := by
    intro j hj
    exact ((hview j (hne j hj)).fields (j := j) ((hused j (hne j hj)).mpr hj)).2
  have hcount : count t.Used = count t'.Used + 1 := count_add hgone hi hused
  have hsta' : ∀ b, (t'.staCount b).toNat = count (t'.ClientOf b) ∧
      (t'.staCount b).toNat ≤ (t.staCount b).toNat := by
    intro b
    have hgoneb : ¬ t'.ClientOf b i := fun hc => hgone (Client.used hc.1)
    exact toNat_removed (by decide) hgoneb (hclientOf b) (h.staCount b) (hsta b)
  have hgonec : ¬ t'.Client i := fun hc => hgone hc.used
  refine ⟨?_, ?_, ?_, ?_, ?_, fun b => (hsta' b).1, ?_, ?_⟩
  · intro hzero
    exact h.zero ((hused _ (hne _ hzero)).mpr hzero)
  · intro j hj
    rw [(hfields j hj).2.1]
    exact h.aid j ((hused j (hne j hj)).mpr hj)
  · intro j k hj hk heq
    rw [(hfields j hj).1, (hfields k hk).1] at heq
    exact h.distinct j k ((hused j (hne j hj)).mpr hj) ((hused k (hne k hk)).mpr hk) heq
  · intro j hj
    rw [(hfields j hj.used).2.2]
    exact h.bss j ((hclient j (hne j hj.used)).mpr hj)
  · rw [hsize]
    exact toNat_sub_one (by decide) (h.size.trans hcount)
  · exact (toNat_removed (by decide) hgonec hclient h.clients hclients).1
  · intro b hb
    exact le_def.mpr ((hsta' b).2.trans (le_def.mp (h.limit b hb)))

theorem Counted.uncount (h : t.Counted cfg) (i : Slot) :
    ∃ t₁, t.uncountEntry (t.content i) = some t₁ ∧ t₁.content = t.content ∧ t₁.hash = t.hash ∧
      t₁.size = t.size ∧
      (∀ b, t₁.staCount b = if t.ClientOf b i then t.staCount b - 1 else t.staCount b) ∧
      t₁.entryClientCount =
        if t.Client i then t.entryClientCount - 1 else t.entryClientCount := by
  by_cases hc : t.Client i
  · obtain ⟨-, -, hhw⟩ := h.bss i hc
    refine ⟨_, (if_pos hc).trans (dif_pos hhw), rfl, rfl, rfl, ?_, (if_pos hc).symm⟩
    intro b
    by_cases hb : b.val = (t.content i).apidx.toNat
    · obtain rfl : b = ⟨(t.content i).apidx.toNat, hhw⟩ := Fin.ext hb
      rw [if_pos ⟨hc, rfl⟩]
      exact update_self ..
    · rw [if_neg fun hcb => hb hcb.2.symm]
      exact update_of_ne (fun heq => hb (congrArg Fin.val heq)) _ _
  · refine ⟨t, if_neg hc, rfl, rfl, rfl, ?_, (if_neg hc).symm⟩
    intro b
    rw [if_neg fun hcb => hc hcb.1]

/-- **`MacTableDeleteEntry`** keeps the table consistent; other slots stay as they are, and the
    slot of the address is free afterwards. -/
theorem Ok.delete (h : t.Ok cfg) (wcid : Nat) (addr : BitVec 48) :
    ∃ r t', t.macTableDeleteEntry wcid addr = some (r, t') ∧ t'.Ok cfg ∧
      (∀ j, t'.Used j → t.Used j) ∧
      (∀ j, j.val = wcid → (t.content j).addr = addr → ¬ t'.Used j) := by
  unfold macTableDeleteEntry
  by_cases hw : wcid < maxLenOfMacTable
  swap
  · refine ⟨false, t, dif_neg hw, h, fun _ hj => hj, ?_⟩
    intro j hj
    exact absurd (hj ▸ j.isLt) hw
  rw [dif_pos hw]
  by_cases hmatch : (t.content ⟨wcid, hw⟩).entryType ≠ .none ∧ (t.content ⟨wcid, hw⟩).addr = addr
  swap
  · refine ⟨true, t, if_neg hmatch, h, fun _ hj => hj, ?_⟩
    rintro j rfl hja hj
    exact hmatch ⟨hj, hja⟩
  obtain ⟨hi, rfl⟩ := hmatch
  obtain ⟨t₁, huncount, hcontent, hhash, hsize, hsta, hclients⟩ :=
    h.counted.uncount ⟨wcid, hw⟩
  have hnext₁ : t₁.next = t.next := by
    funext j
    rw [next, next, hcontent]
  have hused₁ : ∀ j, t₁.Used j ↔ t.Used j := fun j => by rw [Used, Used, hcontent]
  have hbucket₁ : t₁.bucket = t.bucket := by
    funext j
    simp only [bucket, hused₁ j, hcontent]
  have hchains₁ : HashChains t₁.next t₁.hash t₁.bucket := by
    rw [hnext₁, hhash, hbucket₁]
    exact h.hash
  obtain ⟨t₂, hunlink, hsame, hchains⟩ := unlinkEntry_spec hchains₁ ((hused₁ _).mpr hi)
  let t' : MacTable := { t₂.put ⟨wcid, hw⟩ { t₂.content ⟨wcid, hw⟩ with entryType := .none } with
    size := t₂.size - 1 }
  have hgone : ¬ t'.Used ⟨wcid, hw⟩ := fun hu => hu (by simp [t', put])
  have hcore : ∀ j, j ≠ ⟨wcid, hw⟩ → core (t'.content j) = core (t.content j) := by
    intro j hj
    have hput : t'.content j = t₂.content j := update_of_ne hj _ _
    rw [hput, hsame.core j, hcontent]
  refine ⟨true, t', ?_, ⟨?_, ?_⟩, ?_, ?_⟩
  · rw [hcontent] at hunlink
    rw [if_pos ⟨hi, rfl⟩]
    simp only [bind, huncount, bind_some, hunlink]
    rfl
  · apply h.counted.remove hi hcore hgone
    · show t₂.size - 1 = _
      rw [hsame.size, hsize]
    · intro b
      show t₂.staCount b = _
      rw [hsame.staCount]
      exact hsta b
    · show t₂.entryClientCount = _
      rw [hsame.entryClientCount]
      exact hclients
  · have hnext' : t'.next = t₂.next := by
      show (t₂.put _ _).next = _
      rw [next_put]
      exact update_eq_self_iff.mpr rfl
    have hbucket' : t'.bucket = update t₁.bucket ⟨wcid, hw⟩ none := by
      funext j
      by_cases hj : j = ⟨wcid, hw⟩
      · subst hj
        rw [update_self, bucket, if_neg hgone]
      · rw [update_of_ne hj, ← bucket_congr hsame]
        have hput : t'.content j = t₂.content j := update_of_ne hj _ _
        have hused : t'.Used j ↔ t₂.Used j := by rw [Used, Used, hput]
        simp only [bucket, hused, hput]
    show HashChains t'.next t₂.hash t'.bucket
    rw [hnext', hbucket']
    exact hchains
  · intro j hj
    by_cases hji : j = ⟨wcid, hw⟩
    · exact absurd (hji ▸ hj) hgone
    · rw [used_iff_core, ← hcore j hji, ← used_iff_core]
      exact hj
  · rintro j rfl -
    exact hgone

/-! ## Reset -/

theorem Ok.resetLoop (h : t.Ok cfg) (alloc : Slot → Bool) (is : List Slot) :
    ∃ ended t', MacTable.resetLoop alloc is t = some (ended, t') ∧ t'.Ok cfg ∧
      (∀ j, t'.Used j → t.Used j) ∧ (ended = true → ∀ j ∈ is, ¬ t'.Used j) := by
  induction is generalizing t with
  | nil => exact ⟨true, t, rfl, h, fun _ hj => hj, by simp⟩
  | cons i is ih =>
    by_cases hstop : (t.content i).entryType = .client ∧ (t.content i).sst = .assoc ∧
        alloc i = false
    · exact ⟨false, t, if_pos hstop, h, fun _ hj => hj, by simp⟩
    · obtain ⟨r, t₁, hdelete, h₁, hmono₁, hfree⟩ := h.delete i.val (t.content i).addr
      obtain ⟨ended, t', hloop, h', hmono, hdone⟩ := ih h₁
      refine ⟨ended, t', ?_, h', fun j hj => hmono₁ j (hmono j hj), ?_⟩
      · simp only [MacTable.resetLoop, if_neg hstop, hdelete, bind, bind_some]
        exact hloop
      · intro hend j hj hused
        rcases mem_cons.mp hj with rfl | hj
        · exact hfree j rfl rfl (hmono j hused)
        · exact hdone hend j hj hused

/-- **`MacTableReset`** keeps the table consistent, also when it ends early. -/
theorem Ok.reset (h : t.Ok cfg) (alloc : Slot → Bool) :
    ∃ t', t.macTableReset cfg alloc = some t' ∧ t'.Ok cfg := by
  obtain ⟨ended, t₁, hloop, h₁, -, hdone⟩ :=
    h.resetLoop alloc ((finRange maxLenOfMacTable).tail)
  cases ended with
  | false => exact ⟨t₁, by simp [macTableReset, hloop], h₁⟩
  | true =>
    -- nothing is left to count
    have hempty : ∀ j, ¬ t₁.Used j := by
      intro j
      by_cases hj : j = ⟨0, by decide⟩
      · rw [hj]
        exact h₁.counted.zero
      · apply hdone rfl j
        have hall : j ∈ finRange maxLenOfMacTable := mem_finRange j
        have hcons : finRange maxLenOfMacTable =
            ⟨0, by decide⟩ :: (finRange maxLenOfMacTable).tail := rfl
        rw [hcons] at hall
        exact (mem_cons.mp hall).resolve_left hj
    have hzero : ∀ (p : Slot → Prop) [DecidablePred p], (∀ j, p j → t₁.Used j) → count p = 0 := by
      intro p _ hp
      have hno : ∀ j, ¬ p j := fun j hj => hempty j (hp j hj)
      simp [count, hno]
    have hsta : ∀ b, t₁.staCount b = 0 := by
      intro b
      apply eq_of_toNat_eq
      rw [h₁.counted.staCount b, hzero _ fun j hj => Client.used hj.1]
      rfl
    have hsize : t₁.size = 0 := by
      apply eq_of_toNat_eq
      rw [h₁.counted.size, hzero _ fun j hj => hj]
      rfl
    refine ⟨t₁, ?_, h₁⟩
    have hsame : (fun b : Fin hwBeaconMaxNum => if b.val < cfg.bssidNum then 0 else t₁.staCount b) =
        t₁.staCount := by
      funext b
      simp [hsta b]
    simp only [macTableReset, hloop, bind, bind_some, if_true, hsame, ← hsize]

theorem Counted.sum_staCount (h : t.Counted cfg) :
    t.entryClientCount.toNat = ∑ b, (t.staCount b).toNat := by
  have hfiber := Finset.card_eq_sum_card_fiberwise
    (s := Finset.univ.filter t.Client) (t := Finset.univ)
    (f := fun i => if hb : (t.content i).apidx.toNat < hwBeaconMaxNum then
      (⟨(t.content i).apidx.toNat, hb⟩ : Fin hwBeaconMaxNum) else ⟨0, by decide⟩)
    (fun i _ => Finset.mem_coe.mpr (Finset.mem_univ _))
  rw [h.clients, count, hfiber]
  apply Finset.sum_congr rfl
  intro b _
  rw [h.staCount b, count]
  congr 1
  ext i
  simp only [Finset.mem_filter, Finset.mem_univ, true_and]
  constructor
  · rintro ⟨hc, hb⟩
    rw [dif_pos (h.bss i hc).2.2] at hb
    exact ⟨hc, congrArg Fin.val hb⟩
  · rintro ⟨hc, hb⟩
    refine ⟨hc, ?_⟩
    rw [dif_pos (h.bss i hc).2.2]
    exact Fin.ext hb

end MacTable

/-! ## Runs -/

/-- An entry is inserted with a valid index and an address that is not in the table. -/
def InsertsNew (cfg : ApCfg) (t : MacTable) : MacTabCall → Prop
  | .insert addr apidx =>
    MacTable.ValidIndex cfg apidx ∧ ∀ j, t.Used j → (t.content j).addr ≠ addr
  | _ => True

instance instDecidableInsertsNew (cfg : ApCfg) (t : MacTable) :
    (c : MacTabCall) → Decidable (InsertsNew cfg t c)
  | .insert addr apidx => inferInstanceAs (Decidable ((MacTable.entryTypeOf apidx = .client →
      apidx < cfg.bssidNum ∧ apidx < cfg.maxMbssidNum ∧ apidx < hwBeaconMaxNum) ∧
      ∀ j, t.Used j → (t.content j).addr ≠ addr))
  | .delete .. => isTrue trivial
  | .reset .. => isTrue trivial
  | .setSst .. => isTrue trivial

theorem MacTable.Ok.call {cfg : ApCfg} {t : MacTable} (h : t.Ok cfg) {c : MacTabCall}
    (hc : InsertsNew cfg t c) : ∃ t', t.call cfg c = some t' ∧ t'.Ok cfg := by
  cases c with
  | insert addr apidx =>
    obtain ⟨r, t', hinsert, hok⟩ := h.insert hc.1 hc.2
    exact ⟨t', by simp [MacTable.call, hinsert], hok⟩
  | delete wcid addr =>
    obtain ⟨r, t', hdelete, hok, -⟩ := h.delete wcid addr
    exact ⟨t', by simp [MacTable.call, hdelete], hok⟩
  | reset alloc => exact h.reset alloc
  | setSst i sst =>
    have hsame : MacTable.SameEntries t (t.put i { t.content i with sst }) := by
      refine ⟨fun j => ?_, rfl, rfl, rfl⟩
      by_cases hj : j = i
      · simp [MacTable.put, MacTable.core, hj]
      · simp [MacTable.put, hj]
    refine ⟨_, rfl, h.counted.congr hsame, ?_⟩
    have hnext : (t.put i { t.content i with sst }).next = t.next := by
      rw [MacTable.next_put]
      exact update_eq_self_iff.mpr rfl
    rw [MacTable.bucket_congr hsame, hnext]
    exact h.hash

/-- **Station table**: after every run of insertions of new addresses, deletions and resets, the
    counters count the entries, slot 0 is free and every entry in use knows its slot, the hash
    chains hold exactly the entries in use, each on the chain of its address, no BSS has more
    clients than it may have, and a lookup returns exactly the entry of its address. -/
theorem mac_table_run (cfg : ApCfg) (cs : List MacTabCall)
    (hrun : Along (stepM (MacTable.call cfg)) (OnSome (InsertsNew cfg)) (some MacTable.init) cs) :
    ∃ t, runEvents (stepM (MacTable.call cfg)) (some MacTable.init) cs = some t ∧ t.Ok cfg ∧
      t.entryClientCount.toNat = ∑ b, (t.staCount b).toNat ∧
      ∀ addr, ∃ r, t.macTableLookup addr = some r ∧
        ∀ i, r = some i ↔ t.Used i ∧ (t.content i).addr = addr := by
  have h0 : ∃ t, some MacTable.init = some t ∧ t.Ok cfg := ⟨_, rfl, MacTable.init_ok⟩
  have hstep : ∀ s c, (∃ t, s = some t ∧ MacTable.Ok cfg t) → OnSome (InsertsNew cfg) s c →
      ∃ t, stepM (MacTable.call cfg) s c = some t ∧ t.Ok cfg := by
    rintro _ c ⟨t, rfl, hok⟩ hc
    exact hok.call (onSome_some.mp hc)
  obtain ⟨t, hend, hok⟩ := hrun.invariant hstep h0
  exact ⟨t, hend, hok, hok.counted.sum_staCount, hok.lookup⟩

/-- Two BSSes, the first with room for one station. -/
def twoBssids : ApCfg := ⟨2, 8, fun b => if b.val = 0 then 1 else 0⟩

/-- Two stations on one hash chain and a WDS link join, a third station is refused, and a reset
    ends at the associated station. -/
def interruptedReset : List MacTabCall :=
  [.insert 0x0001 0, .insert 0x0100 1, .insert 0x0200 0x10, .insert 0x0300 0, .delete 1 0x0001,
    .setSst ⟨2, by decide⟩ .assoc, .reset fun _ => false]

theorem mac_table_interrupted_reset :
    ∃ t, runEvents (stepM (MacTable.call twoBssids)) (some MacTable.init) interruptedReset = some t ∧
      t.Ok twoBssids ∧ t.entryClientCount.toNat = ∑ b, (t.staCount b).toNat ∧
      ∀ addr, ∃ r, t.macTableLookup addr = some r ∧
        ∀ i, r = some i ↔ t.Used i ∧ (t.content i).addr = addr :=
  mac_table_run twoBssids interruptedReset (by decide +kernel)

end RalinkSdk.MacTab
