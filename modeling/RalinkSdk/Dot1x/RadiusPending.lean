import RalinkSdk.Dot1x.RadiusClient
import RalinkSdk.Lib.Chain

/-!
# The list of pending requests over runs

`Pending c l` says that the links of the client lead through the entries `l`, that all of
them are allocated, and that no two carry the same identifier.  Every call keeps such a
list: entries may leave it, one may join, and the messages of the others stay.

The counter is another matter.  It follows the list in every function but
`Radius_client_get_id`, which frees a request whose identifier is used again and does not
count it out.
-/

namespace RalinkSdk.Dot1x

open Lib List Option Function

namespace RadiusClient

variable {c c' : RadiusClient} {l pre post : List Nat} {a : Nat} {e : RadiusMsgList}

/-- The message of the entry at `a`. -/
def msgAt (c : RadiusClient) (a : Nat) : Option RadiusMsg := (c.heap a).map RadiusMsgList.msg

def identAt (c : RadiusClient) (a : Nat) : Option (BitVec 8) :=
  (c.msgAt a).map RadiusMsg.identifier

/-- **The list**: its entries are linked in order and allocated, and their identifiers
    are pairwise distinct. -/
structure Pending (c : RadiusClient) (l : List Nat) : Prop where
  chain : Chain c.next c.msgs l
  allocated : ∀ a ∈ l, (c.heap a).isSome
  distinct : (l.map c.identAt).Nodup

theorem Pending.nodup (h : Pending c l) : l.Nodup := h.distinct.of_map

theorem Pending.entry (h : Pending c l) (ha : a ∈ l) : ∃ e, c.heap a = some e :=
  isSome_iff_exists.mp (h.allocated a ha)

theorem Pending.ident_ne (h : Pending c (pre ++ a :: post)) {b : Nat} (hb : b ∈ pre ++ post) :
    c.identAt b ≠ c.identAt a := by
  have hd := h.distinct
  rw [map_append, map_cons, nodup_middle, nodup_cons, ← map_append] at hd
  intro heq
  exact hd.1 (heq ▸ mem_map_of_mem hb)

/-! ## Memory -/

/-- The client with the entry at `a` rewritten. -/
def put (c : RadiusClient) (a : Nat) (e : Option RadiusMsgList) : RadiusClient :=
  { c with heap := update c.heap a e }

@[simp] theorem put_msgs (e : Option RadiusMsgList) : (c.put a e).msgs = c.msgs := rfl

@[simp] theorem put_numMsgs (e : Option RadiusMsgList) : (c.put a e).numMsgs = c.numMsgs := rfl

@[simp] theorem put_nextRadiusIdentifier (e : Option RadiusMsgList) :
    (c.put a e).nextRadiusIdentifier = c.nextRadiusIdentifier := rfl

@[simp] theorem put_heap_same (e : Option RadiusMsgList) : (c.put a e).heap a = e := by
  simp [put]

theorem put_heap_of_ne {b : Nat} (hb : b ≠ a) (e : Option RadiusMsgList) :
    (c.put a e).heap b = c.heap b := by
  simp [put, hb]

theorem put_next (e : Option RadiusMsgList) :
    (c.put a e).next = update c.next a (e.bind RadiusMsgList.next) := by
  funext b
  by_cases hb : b = a
  · subst hb
    simp [RadiusClient.next]
  · simp [RadiusClient.next, put_heap_of_ne hb, hb]

theorem store_eq {e' : RadiusMsgList} (h : c.heap a = some e') :
    c.store a e = some (c.put a (some e)) := by
  simp [store, h, put]

theorem free_eq (h : c.heap a = some e) : c.radiusClientMsgFree a = some (c.put a none) := by
  simp [radiusClientMsgFree, h, put]

theorem map_identAt_congr (h : ∀ b ∈ l, c'.msgAt b = c.msgAt b) :
    l.map c'.identAt = l.map c.identAt := by
  apply map_congr_left
  intro b hb
  rw [identAt, h b hb, identAt]

theorem isSome_heap_of_msgAt (h : c'.msgAt a = c.msgAt a) (ha : (c.heap a).isSome) :
    (c'.heap a).isSome := by
  have hmsg : (c'.msgAt a).isSome := by
    rw [h]
    simpa [msgAt] using ha
  simpa [msgAt] using hmsg

/-- What a call leaves of the list: some entries, with their messages. -/
structure Kept (c : RadiusClient) (l : List Nat) (c' : RadiusClient) (l' : List Nat) : Prop where
  pending : Pending c' l'
  sublist : l'.Sublist l
  msgAt_eq : ∀ b ∈ l', c'.msgAt b = c.msgAt b
  ident_eq : c'.nextRadiusIdentifier = c.nextRadiusIdentifier

theorem Kept.refl (h : Pending c l) : Kept c l c l :=
  ⟨h, List.Sublist.refl l, fun _ _ => rfl, rfl⟩

theorem Kept.trans {c'' : RadiusClient} {l' l'' : List Nat} (h : Kept c l c' l')
    (h' : Kept c' l' c'' l'') : Kept c l c'' l'' :=
  ⟨h'.pending, h'.sublist.trans h.sublist,
    fun b hb => (h'.msgAt_eq b hb).trans (h.msgAt_eq b (h'.sublist.subset hb)),
    h'.ident_eq.trans h.ident_eq⟩

theorem Pending.put (h : Pending c l) {e' : RadiusMsgList} (ha : c.heap a = some e)
    (hnext : e'.next = e.next) (hmsg : e'.msg = e.msg) : Kept c l (c.put a (some e')) l := by
  have hsame : (c.put a (some e')).next = c.next := by
    rw [put_next]
    apply Function.update_eq_self_iff.mpr
    simp [RadiusClient.next, ha, hnext]
  have hmsgAt : ∀ b, (c.put a (some e')).msgAt b = c.msgAt b := by
    intro b
    by_cases hb : b = a
    · subst hb
      simp [msgAt, ha, hmsg]
    · simp [msgAt, put_heap_of_ne hb]
  refine ⟨⟨?_, ?_, ?_⟩, List.Sublist.refl l, fun b _ => hmsgAt b, rfl⟩
  · rw [hsame]
    exact h.chain
  · intro b hb
    exact isSome_heap_of_msgAt (hmsgAt b) (h.allocated b hb)
  · rw [map_identAt_congr fun b _ => hmsgAt b]
    exact h.distinct

theorem Pending.next_eq (h : Pending c (pre ++ a :: post)) (ha : c.heap a = some e) :
    e.next = post.head? := by
  obtain ⟨_, _, hrest⟩ := chain_append.mp h.chain
  have hhead := Chain.head hrest.2
  simpa [RadiusClient.next, ha] using hhead

/-! ## Unlinking -/

/-- What is left of the list when the entry at `a` has been unlinked and freed. -/
structure Unlinked (c : RadiusClient) (a : Nat) (l : List Nat) (c' : RadiusClient) : Prop where
  pending : Pending c' l
  msgAt_eq : ∀ b ∈ l, c'.msgAt b = c.msgAt b
  later : ∀ b, b ∉ l → b ≠ a → c'.heap b = c.heap b
  numMsgs_eq : c'.numMsgs = c.numMsgs
  ident_eq : c'.nextRadiusIdentifier = c.nextRadiusIdentifier

/-- **Unlinking** the entry at `a`, which stands behind `prev`, and freeing it. -/
theorem Pending.unlink (h : Pending c (pre ++ a :: post)) (ha : c.heap a = some e) :
    ∃ c₁ c₂, c.relink pre.getLast? e.next = some c₁ ∧ c₁.radiusClientMsgFree a = some c₂ ∧
      c₁.numMsgs = c.numMsgs ∧ Unlinked c a (pre ++ post) c₂ := by
  have hnd := h.nodup
  have hapre : a ∉ pre ++ post := by
    rw [nodup_middle, nodup_cons] at hnd
    exact hnd.1
  have hsub : (pre ++ post).Sublist (pre ++ a :: post) :=
    (sublist_cons_self a post).append_left pre
  rcases eq_nil_or_concat pre with rfl | ⟨front, p, rfl⟩
  · -- the first entry: `msgs` moves on
    refine ⟨{ c with msgs := e.next }, RadiusClient.put { c with msgs := e.next } a none, rfl,
      free_eq ha, rfl, ?_, ?_, ?_, rfl, rfl⟩
    · refine ⟨?_, ?_, ?_⟩
      · rw [put_next]
        apply Chain.update_of_not_mem _ (by simpa using hapre)
        have hrest := h.chain.2
        have hnext : c.next a = e.next := by simp [RadiusClient.next, ha]
        rw [hnext] at hrest
        exact hrest
      · intro b hb
        have hba : b ≠ a := ne_of_mem_of_not_mem hb hapre
        rw [put_heap_of_ne hba]
        exact h.allocated b (hsub.subset hb)
      · rw [map_identAt_congr (c := c)]
        · exact h.distinct.sublist (hsub.map _)
        · intro b hb
          have hba : b ≠ a := ne_of_mem_of_not_mem hb hapre
          simp [msgAt, put_heap_of_ne hba]
    · intro b hb
      have hba : b ≠ a := ne_of_mem_of_not_mem hb hapre
      simp [msgAt, put_heap_of_ne hba]
    · intro b _ hba
      exact put_heap_of_ne hba none
  · -- behind `p`, whose link is rewritten
    rw [concat_eq_append] at h hnd hapre hsub ⊢
    obtain ⟨ep, hp⟩ := h.entry (a := p) (by simp)
    have hpa : p ≠ a := fun heq => hapre (by simp [heq])
    have hfree : (c.put p (some { ep with next := e.next })).heap a = some e := by
      rw [put_heap_of_ne hpa.symm]
      exact ha
    have hmsg : ∀ b, b ≠ a → ((c.put p (some { ep with next := e.next })).put a none).msgAt b =
        c.msgAt b := by
      intro b hba
      by_cases hbp : b = p
      · subst hbp
        simp [msgAt, put_heap_of_ne hba, hp]
      · simp [msgAt, put_heap_of_ne hba, put_heap_of_ne hbp]
    refine ⟨c.put p (some { ep with next := e.next }),
      (c.put p (some { ep with next := e.next })).put a none, ?_, free_eq hfree, rfl, ?_, ?_, ?_,
      rfl, rfl⟩
    · simp [relink, hp, store_eq hp]
    · refine ⟨?_, ?_, ?_⟩
      · rw [put_next, put_next]
        apply Chain.update_of_not_mem _ hapre
        have hchain : Chain c.next c.msgs (front ++ p :: a :: post) := by
          simpa using h.chain
        have hcut := hchain.unlink (by simpa using hnd)
        have hnext : c.next a = e.next := by simp [RadiusClient.next, ha]
        rw [hnext] at hcut
        simpa using hcut
      · intro b hb
        have hba : b ≠ a := ne_of_mem_of_not_mem hb hapre
        exact isSome_heap_of_msgAt (hmsg b hba) (h.allocated b (hsub.subset hb))
      · rw [map_identAt_congr (c := c)]
        · exact h.distinct.sublist (hsub.map _)
        · intro b hb
          exact hmsg b (ne_of_mem_of_not_mem hb hapre)
    · intro b hb
      exact hmsg b (ne_of_mem_of_not_mem hb hapre)
    · intro b hb hba
      have hbp : b ≠ p := fun heq => hb (by simp [heq])
      rw [put_heap_of_ne hba, put_heap_of_ne hbp]

/-! ## Identifiers -/

theorem getIdLoop_skip {fuel : Nat} {id : BitVec 8} {prev : Option Nat}
    (h : Pending c (pre ++ post)) (hne : ∀ b ∈ post, c.identAt b ≠ some id)
    (hfuel : post.length < fuel) : getIdLoop fuel id c post.head? prev = some c := by
  induction post generalizing pre fuel prev with
  | nil =>
    obtain ⟨n, rfl⟩ := Nat.exists_eq_add_of_lt hfuel
    rfl
  | cons b post ih =>
    obtain ⟨n, rfl⟩ : ∃ n, fuel = n + 1 := ⟨fuel - 1, by simp at hfuel; omega⟩
    obtain ⟨e, he⟩ := h.entry (a := b) (by simp)
    have hid : e.msg.identifier ≠ id := by
      have := hne b mem_cons_self
      simpa [identAt, msgAt, he] using this
    have hrest : Pending c ((pre ++ [b]) ++ post) := by simpa using h
    have hwalk : getIdLoop n id c post.head? (some b) = some c :=
      ih hrest (fun x hx => hne x (mem_cons_of_mem b hx)) (by simpa using hfuel)
    simp [getIdLoop, he, hid, h.next_eq he, hwalk]

/-- **The loop of `Radius_client_get_id`** takes out the entry that has the identifier, if
    there is one. -/
theorem getIdLoop_spec {fuel : Nat} (id : BitVec 8) (h : Pending c (pre ++ post))
    (hpre : ∀ b ∈ pre, c.identAt b ≠ some id) (hfuel : post.length < fuel) :
    ∃ c' l', getIdLoop fuel id c post.head? pre.getLast? = some c' ∧
      Kept c (pre ++ post) c' l' ∧ (∀ b ∈ l', c.identAt b ≠ some id) ∧
      c'.numMsgs = c.numMsgs ∧
      ((∀ b ∈ post, c.identAt b ≠ some id) → l' = pre ++ post) := by
  induction post generalizing pre fuel with
  | nil =>
    obtain ⟨n, rfl⟩ := Nat.exists_eq_add_of_lt hfuel
    refine ⟨c, pre, rfl, ?_, hpre, rfl, fun _ => by simp⟩
    simpa using Kept.refl h
  | cons b post ih =>
    obtain ⟨n, rfl⟩ : ∃ n, fuel = n + 1 := ⟨fuel - 1, by simp at hfuel; omega⟩
    obtain ⟨e, he⟩ := h.entry (a := b) (by simp)
    by_cases hid : e.msg.identifier = id
    · -- the entry leaves, and nothing behind it has its identifier
      obtain ⟨c₁, c₂, hrelink, hfree, _, hun⟩ := h.unlink he
      have hident : c.identAt b = some id := by simp [identAt, msgAt, he, hid]
      have hother : ∀ x ∈ pre ++ post, c.identAt x ≠ some id := by
        intro x hx
        rw [← hident]
        exact h.ident_ne hx
      have hskip : getIdLoop n id c₂ post.head? (some b) = some c₂ := by
        apply getIdLoop_skip hun.pending _ (by simpa using hfuel)
        intro x hx
        have hmem : x ∈ pre ++ post := mem_append_right pre hx
        rw [identAt, hun.msgAt_eq x hmem]
        exact hother x hmem
      refine ⟨c₂, pre ++ post, ?_, ⟨hun.pending, (sublist_cons_self b post).append_left pre,
        hun.msgAt_eq, hun.ident_eq⟩, hother, hun.numMsgs_eq, fun hnone => ?_⟩
      · rw [h.next_eq he] at hrelink
        simp [getIdLoop, he, hid, h.next_eq he, hrelink, hfree, hskip]
      · exact absurd hident (hnone b mem_cons_self)
    · have hrest : Pending c ((pre ++ [b]) ++ post) := by simpa using h
      have hident : c.identAt b ≠ some id := by simpa [identAt, msgAt, he] using hid
      have hpre' : ∀ x ∈ pre ++ [b], c.identAt x ≠ some id := by
        intro x hx
        rcases mem_append.mp hx with hx | hx
        · exact hpre x hx
        · rw [mem_singleton.mp hx]
          exact hident
      obtain ⟨c', l', hloop, hkept, hids, hnum, hsame⟩ :=
        ih hrest hpre' (by simpa using hfuel : post.length < n)
      refine ⟨c', l', ?_, by simpa using hkept, hids, hnum, fun hnone => ?_⟩
      · rw [getLast?_concat] at hloop
        simp [getIdLoop, he, hid, h.next_eq he, hloop]
      · rw [hsame fun x hx => hnone x (mem_cons_of_mem b hx)]
        simp

theorem radiusClientGetId_spec (h : Pending c l) (hlen : l.length < walkLimit) :
    ∃ c' l', c.radiusClientGetId = some (c', c.nextRadiusIdentifier) ∧ Pending c' l' ∧
      l'.Sublist l ∧ (∀ b ∈ l', c'.msgAt b = c.msgAt b) ∧
      (∀ b ∈ l', c'.identAt b ≠ some c.nextRadiusIdentifier) ∧
      c'.numMsgs = c.numMsgs ∧ c'.nextRadiusIdentifier = c.nextRadiusIdentifier + 1 ∧
      ((∀ b ∈ l, c.identAt b ≠ some c.nextRadiusIdentifier) → l' = l) := by
  have h₁ : Pending { c with nextRadiusIdentifier := c.nextRadiusIdentifier + 1 } ([] ++ l) :=
    ⟨h.chain, h.allocated, h.distinct⟩
  obtain ⟨c', l', hloop, hkept, hids, hnum, hsame⟩ :=
    getIdLoop_spec c.nextRadiusIdentifier h₁ (by simp) hlen
  have hhead : c.msgs = l.head? := Chain.head h.chain
  refine ⟨c', l', ?_, hkept.pending, hkept.sublist, hkept.msgAt_eq, ?_, hnum, hkept.ident_eq, hsame⟩
  · rw [getLast?_nil, ← hhead] at hloop
    unfold radiusClientGetId
    simp only [hloop, bind, Option.bind]
  · intro b hb
    rw [identAt, hkept.msgAt_eq b hb]
    exact hids b hb

/-! ## Replies, flushes and timers -/

/-- What a call leaves of the list when it counts out what it takes: a counter that is
    right stays right, and one that is too large does not grow. -/
structure Fewer (c : RadiusClient) (l : List Nat) (c' : RadiusClient) (l' : List Nat) : Prop
    extends Kept c l c' l' where
  exact : c.numMsgs.toNat = l.length → c'.numMsgs.toNat = l'.length
  bounds : l.length ≤ c.numMsgs.toNat →
    l'.length ≤ c'.numMsgs.toNat ∧ c'.numMsgs.toNat ≤ c.numMsgs.toNat

theorem Kept.fewer (h : Kept c l c' l) (hnum : c'.numMsgs = c.numMsgs) : Fewer c l c' l :=
  ⟨h, fun heq => by rw [hnum, heq], fun hle => by rw [hnum]; exact ⟨hle, le_refl _⟩⟩

theorem Fewer.trans {c'' : RadiusClient} {l' l'' : List Nat} (h : Fewer c l c' l')
    (h' : Fewer c' l' c'' l'') : Fewer c l c'' l'' := by
  refine ⟨h.toKept.trans h'.toKept, fun heq => h'.exact (h.exact heq), fun hle => ?_⟩
  obtain ⟨hlen, hnum⟩ := h.bounds hle
  obtain ⟨hlen', hnum'⟩ := h'.bounds hlen
  exact ⟨hlen', hnum'.trans hnum⟩

theorem Unlinked.fewer (h : Unlinked c a (pre ++ post) c') :
    Fewer c (pre ++ a :: post) { c' with numMsgs := c'.numMsgs - 1 } (pre ++ post) := by
  have hcount : (pre ++ a :: post).length ≤ c.numMsgs.toNat →
      (c'.numMsgs - 1).toNat = c.numMsgs.toNat - 1 := by
    intro hle
    have hpos : (1#32) ≤ c.numMsgs := by
      rw [BitVec.le_def]
      simp at hle ⊢
      omega
    rw [h.numMsgs_eq]
    exact BitVec.toNat_sub_of_le hpos
  have hlen : (pre ++ a :: post).length = (pre ++ post).length + 1 := by
    simp only [length_append, length_cons]
    omega
  refine ⟨⟨⟨h.pending.chain, h.pending.allocated, h.pending.distinct⟩,
    (sublist_cons_self a post).append_left pre, h.msgAt_eq, h.ident_eq⟩,
    fun heq => ?_, fun hle => ?_⟩
  · have hnum := hcount heq.ge
    show (c'.numMsgs - 1).toNat = _
    omega
  · have hnum := hcount hle
    show _ ≤ (c'.numMsgs - 1).toNat ∧ (c'.numMsgs - 1).toNat ≤ _
    omega

theorem findRequest_spec {fuel : Nat} (msgType : RadiusType) (id : BitVec 8)
    (h : Pending c (pre ++ post)) (hfuel : post.length < fuel) :
    findRequest fuel c msgType id post.head? pre.getLast? = some none ∨
      ∃ front a e rest, pre ++ post = front ++ a :: rest ∧ c.heap a = some e ∧
        e.msg.identifier = id ∧
        findRequest fuel c msgType id post.head? pre.getLast? =
          some (some (a, e, front.getLast?)) := by
  induction post generalizing pre fuel with
  | nil =>
    obtain ⟨n, rfl⟩ := Nat.exists_eq_add_of_lt hfuel
    exact .inl rfl
  | cons b post ih =>
    obtain ⟨n, rfl⟩ : ∃ n, fuel = n + 1 := ⟨fuel - 1, by simp at hfuel; omega⟩
    obtain ⟨e, he⟩ := h.entry (a := b) (by simp)
    by_cases hid : e.msg.identifier = id
    · refine .inr ⟨pre, b, e, post, rfl, he, hid, ?_⟩
      simp [findRequest, he, hid]
    · have hrest : Pending c ((pre ++ [b]) ++ post) := by simpa using h
      have hstep : findRequest (n + 1) c msgType id (b :: post).head? pre.getLast? =
          findRequest n c msgType id post.head? (pre ++ [b]).getLast? := by
        simp [findRequest, he, hid, h.next_eq he]
      rw [hstep]
      have hwalk := ih hrest (by simpa using hfuel : post.length < n)
      simpa using hwalk

theorem free_setNumMsgs {c₁ c₂ : RadiusClient} (hfree : c₁.radiusClientMsgFree a = some c₂)
    (n : BitVec 32) :
    RadiusClient.radiusClientMsgFree { c₁ with numMsgs := n } a = some { c₂ with numMsgs := n } := by
  unfold radiusClientMsgFree at hfree ⊢
  split at hfree
  · next hsome =>
    rw [if_pos hsome, ← some.inj hfree]
  · cases hfree

theorem takeRequest_spec (msgType : RadiusType) (id : BitVec 8) (h : Pending c l)
    (hlen : l.length < walkLimit) : c.takeRequest msgType id = some (c, none) ∨
      ∃ c' l' a e, c.takeRequest msgType id = some (c', some e) ∧ Fewer c l c' l' ∧
        a ∈ l ∧ c.heap a = some e ∧ e.msg.identifier = id := by
  have hhead : c.msgs = l.head? := Chain.head h.chain
  have h₀ : Pending c ([] ++ l) := h
  rcases findRequest_spec msgType id h₀ hlen with
    hnone | ⟨front, a, e, rest, hsplit, he, hid, hfound⟩
  · left
    simp only [getLast?_nil] at hnone
    simp [takeRequest, hhead, hnone]
  · right
    simp only [nil_append] at hsplit
    subst hsplit
    simp only [getLast?_nil] at hfound
    obtain ⟨c₁, c₂, hrelink, hfree, hnum, hun⟩ := h.unlink he
    have hfree' : RadiusClient.radiusClientMsgFree { c₁ with numMsgs := c₁.numMsgs - 1 } a =
        some { c₂ with numMsgs := c₂.numMsgs - 1 } := by
      rw [hun.numMsgs_eq.trans hnum.symm]
      exact free_setNumMsgs hfree _
    refine ⟨{ c₂ with numMsgs := c₂.numMsgs - 1 }, front ++ rest, a, e, ?_, hun.fewer, by simp,
      he, hid⟩
    rw [← hhead] at hfound
    unfold takeRequest
    simp only [hfound, bind, Option.bind, hrelink, hfree']

theorem flushLoop_spec {fuel : Nat} {p : Option Nat} (hchain : Chain c.next p l)
    (hall : ∀ b ∈ l, (c.heap b).isSome) (hnd : l.Nodup) (hfuel : l.length < fuel) :
    ∃ c', flushLoop fuel c p = some c' ∧ c'.msgs = c.msgs ∧ c'.numMsgs = c.numMsgs ∧
      c'.nextRadiusIdentifier = c.nextRadiusIdentifier := by
  induction l generalizing c p fuel with
  | nil =>
    obtain ⟨n, rfl⟩ := Nat.exists_eq_add_of_lt hfuel
    obtain rfl : p = none := hchain
    exact ⟨c, rfl, rfl, rfl, rfl⟩
  | cons b l ih =>
    obtain ⟨n, rfl⟩ : ∃ n, fuel = n + 1 := ⟨fuel - 1, by simp at hfuel; omega⟩
    obtain ⟨rfl, hrest⟩ := hchain
    obtain ⟨e, he⟩ := isSome_iff_exists.mp (hall b mem_cons_self)
    have hb : b ∉ l := (nodup_cons.mp hnd).1
    have hnext : c.next b = e.next := by simp [RadiusClient.next, he]
    -- what is freed is not met again
    have hchain' : Chain (c.put b none).next e.next l := by
      rw [put_next, ← hnext]
      exact Chain.update_of_not_mem hrest hb _
    have hall' : ∀ x ∈ l, ((c.put b none).heap x).isSome := by
      intro x hx
      rw [put_heap_of_ne (ne_of_mem_of_not_mem hx hb)]
      exact hall x (mem_cons_of_mem b hx)
    obtain ⟨c', hloop, hmsgs, hnum, hid⟩ :=
      ih hchain' hall' (nodup_cons.mp hnd).2 (by simpa using hfuel : l.length < n)
    refine ⟨c', ?_, hmsgs, hnum, hid⟩
    simp [flushLoop, he, free_eq he, hloop]

theorem radiusClientFlush_spec (h : Pending c l) (hlen : l.length < walkLimit) :
    ∃ c', c.radiusClientFlush = some c' ∧ Pending c' [] ∧ c'.numMsgs = 0 ∧
      c'.nextRadiusIdentifier = c.nextRadiusIdentifier := by
  obtain ⟨c', hloop, hmsgs, hnum, hid⟩ :=
    flushLoop_spec (c := { c with msgs := none, numMsgs := 0 }) h.chain h.allocated h.nodup hlen
  exact ⟨c', hloop, ⟨hmsgs, by simp, by simp⟩, hnum, hid⟩

theorem resetLoop_spec {fuel : Nat} (h : Pending c (pre ++ post)) (hfuel : post.length < fuel) :
    ∃ c', resetLoop fuel c post.head? = some c' ∧ Kept c (pre ++ post) c' (pre ++ post) ∧
      c'.numMsgs = c.numMsgs := by
  induction post generalizing c pre fuel with
  | nil =>
    obtain ⟨n, rfl⟩ := Nat.exists_eq_add_of_lt hfuel
    exact ⟨c, rfl, Kept.refl h, rfl⟩
  | cons b post ih =>
    obtain ⟨n, rfl⟩ : ∃ n, fuel = n + 1 := ⟨fuel - 1, by simp at hfuel; omega⟩
    obtain ⟨e, he⟩ := h.entry (a := b) (by simp)
    have hput : Kept c (pre ++ b :: post) (c.put b (some (resetRetries e))) (pre ++ b :: post) :=
      h.put he rfl rfl
    have hrest : Pending (c.put b (some (resetRetries e))) ((pre ++ [b]) ++ post) := by
      simpa using hput.pending
    obtain ⟨c', hloop, hkept, hnum⟩ := ih hrest (by simpa using hfuel : post.length < n)
    rw [append_assoc] at hkept
    refine ⟨c', ?_, hput.trans hkept, hnum⟩
    rw [← h.next_eq he] at hloop
    simp [resetLoop, he, store_eq he, hloop]

theorem radiusChangeServer_spec (h : Pending c l) (hlen : l.length < walkLimit)
    (nserv oserv : List (BitVec 8)) :
    ∃ c' l', c.radiusChangeServer nserv oserv = some c' ∧ Fewer c l c' l' := by
  unfold radiusChangeServer
  split
  · obtain ⟨c', hflush, hpend, hnum, hid⟩ := radiusClientFlush_spec h hlen
    refine ⟨c', [], hflush, ⟨hpend, nil_sublist l, by simp, hid⟩, ?_, ?_⟩
    · simp [hnum]
    · simp [hnum]
  · have hhead : c.msgs = l.head? := Chain.head h.chain
    have h₀ : Pending c ([] ++ l) := h
    obtain ⟨c', hreset, hkept, hnum⟩ := resetLoop_spec h₀ hlen
    rw [hhead]
    exact ⟨c', l, hreset, hkept.fewer hnum⟩

theorem useServer_spec (h : Pending c l) (hlen : l.length < walkLimit) (i : Fin maxMbssidNum)
    (k : Nat) : ∃ c' l', c.useServer i k = some c' ∧ Fewer c l c' l' := by
  have h₁ : Pending { c with mbssAuthServer := update c.mbssAuthServer i k } l :=
    ⟨h.chain, h.allocated, h.distinct⟩
  obtain ⟨c', l', heq, hfew⟩ := radiusChangeServer_spec h₁ hlen
    (RadiusClient.secretOf { c with mbssAuthServer := update c.mbssAuthServer i k } i)
    (c.secretOf i)
  exact ⟨c', l', heq, ⟨hfew.pending, hfew.sublist, hfew.msgAt_eq, hfew.ident_eq⟩, hfew.exact,
    hfew.bounds⟩

theorem foldlM_useServer {f : RadiusClient → Fin maxMbssidNum → Option RadiusClient}
    (hf : ∀ c i, f c i = some c ∨ ∃ k, f c i = c.useServer i k) (is : List (Fin maxMbssidNum))
    (h : Pending c l) (hlen : l.length < walkLimit) :
    ∃ c' l', is.foldlM f c = some c' ∧ Fewer c l c' l' := by
  induction is generalizing c l with
  | nil => exact ⟨c, l, rfl, (Kept.refl h).fewer rfl⟩
  | cons i is ih =>
    rcases hf c i with hstay | ⟨k, huse⟩
    · obtain ⟨c', l', heq, hfew⟩ := ih h hlen
      exact ⟨c', l', by rw [foldlM_cons, hstay]; exact heq, hfew⟩
    · obtain ⟨c₁, l₁, heq₁, hfew₁⟩ := useServer_spec h hlen i k
      obtain ⟨c', l', heq, hfew⟩ :=
        ih hfew₁.pending (hfew₁.sublist.length_le.trans_lt hlen)
      refine ⟨c', l', ?_, hfew₁.trans hfew⟩
      rw [foldlM_cons, huse, heq₁]
      exact heq

theorem tryAgain_next (e : RadiusMsgList) (now : Int) : (tryAgain e now).1.next = e.next := by
  unfold tryAgain
  split
  · rfl
  · rfl

theorem tryAgain_msg (e : RadiusMsgList) (now : Int) : (tryAgain e now).1.msg = e.msg := by
  unfold tryAgain
  split
  · rfl
  · rfl

/-- **The loop of `Radius_client_timer`**: `prev` is the last entry that stays. -/
theorem timerLoop_spec {fuel : Nat} (now : Int) (failover : Fin maxMbssidNum → Nat)
    (h : Pending c (pre ++ post)) (hfuel : post.length < fuel) :
    ∃ c' l' failover', timerLoop fuel now c post.head? pre.getLast? failover =
      some (c', failover') ∧ Fewer c (pre ++ post) c' l' := by
  induction post generalizing c pre fuel failover with
  | nil =>
    obtain ⟨n, rfl⟩ := Nat.exists_eq_add_of_lt hfuel
    exact ⟨c, pre ++ [], failover, rfl, (Kept.refl h).fewer rfl⟩
  | cons b post ih =>
    obtain ⟨n, rfl⟩ : ∃ n, fuel = n + 1 := ⟨fuel - 1, by simp at hfuel; omega⟩
    obtain ⟨e₀, he₀⟩ := h.entry (a := b) (by simp)
    obtain ⟨⟨e, last⟩, htry⟩ : ∃ r, tryAgain e₀ now = r := ⟨_, rfl⟩
    have hnext : e.next = e₀.next := by simpa [htry] using tryAgain_next e₀ now
    have hmsg : e.msg = e₀.msg := by simpa [htry] using tryAgain_msg e₀ now
    have hput := h.put he₀ hnext hmsg
    have he : (c.put b (some e)).heap b = some e := put_heap_same _
    have hlink := hput.pending.next_eq he
    cases last with
    | true =>
      -- too many attempts: the entry leaves and `prev` stays
      obtain ⟨c₁, c₂, hrelink, hfree, _, hun⟩ := hput.pending.unlink he
      obtain ⟨c', l', failover', hloop, hfew⟩ :=
        ih failover hun.fewer.pending (by simpa using hfuel : post.length < n)
      refine ⟨c', l', failover', ?_, ((hput.fewer rfl).trans hun.fewer).trans hfew⟩
      rw [← hlink] at hloop
      simp only [head?_cons, timerLoop, he₀, htry, bind, Option.bind, store_eq he₀, hrelink,
        hfree, if_true, hloop]
    | false =>
      have hrest : Pending (c.put b (some e)) ((pre ++ [b]) ++ post) := by simpa using hput.pending
      obtain ⟨c', l', failover', hloop, hfew⟩ :=
        ih (countFailover failover e) hrest (by simpa using hfuel : post.length < n)
      rw [append_assoc] at hfew
      refine ⟨c', l', failover', ?_, (hput.fewer rfl).trans hfew⟩
      rw [← hlink, getLast?_concat] at hloop
      simp only [head?_cons, timerLoop, he₀, htry, bind, Option.bind, store_eq he₀,
        Bool.false_eq_true, if_false, hloop]

theorem radiusClientTimer_spec (h : Pending c l) (hlen : l.length < walkLimit) (now : Int) :
    ∃ c' l', c.radiusClientTimer now = some c' ∧ Fewer c l c' l' := by
  have hhead : c.msgs = l.head? := Chain.head h.chain
  unfold radiusClientTimer
  split
  · exact ⟨c, l, rfl, (Kept.refl h).fewer rfl⟩
  · have h₀ : Pending c ([] ++ l) := h
    obtain ⟨c₁, l₁, failover, hloop, hfew₁⟩ := timerLoop_spec now (fun _ => 0) h₀ hlen
    obtain ⟨c', l', hfold, hfew⟩ : ∃ c' l', c₁.failoverServers failover = some c' ∧
        Fewer c₁ l₁ c' l' := by
      apply foldlM_useServer _ _ hfew₁.pending (hfew₁.sublist.length_le.trans_lt hlen)
      intro c i
      split
      · exact .inr ⟨_, rfl⟩
      · exact .inl rfl
    refine ⟨c', l', ?_, hfew₁.trans hfew⟩
    rw [getLast?_nil, ← hhead] at hloop
    simp only [hloop, bind, Option.bind]
    exact hfold

theorem radiusRetryPrimaryTimer_spec (h : Pending c l) (hlen : l.length < walkLimit)
    (ready : Fin maxMbssidNum → Bool) :
    ∃ c' l', c.radiusRetryPrimaryTimer ready = some c' ∧ Fewer c l c' l' := by
  apply foldlM_useServer _ _ h hlen
  intro c i
  split
  · exact .inr ⟨_, rfl⟩
  · exact .inl rfl

/-! ## New requests -/

theorem lastEntry_spec {fuel : Nat} {z : Nat} (h : Pending c (pre ++ a :: post ++ [z]))
    (hfuel : post.length + 1 < fuel) :
    lastEntry fuel c a pre.getLast? = some (z, (pre ++ a :: post).getLast?) := by
  induction post generalizing pre a fuel with
  | nil =>
    obtain ⟨n, rfl⟩ : ∃ n, fuel = n + 2 := ⟨fuel - 2, by omega⟩
    have h' : Pending c (pre ++ a :: [z]) := by simpa using h
    obtain ⟨e, he⟩ := h'.entry (a := a) (by simp)
    have h'' : Pending c ((pre ++ [a]) ++ z :: []) := by simpa using h
    obtain ⟨ez, hez⟩ := h''.entry (a := z) (by simp)
    simp [lastEntry, he, h'.next_eq he, hez, h''.next_eq hez]
  | cons b post ih =>
    obtain ⟨n, rfl⟩ : ∃ n, fuel = n + 1 := ⟨fuel - 1, by omega⟩
    have h' : Pending c (pre ++ a :: (b :: post ++ [z])) := by simpa using h
    obtain ⟨e, he⟩ := h'.entry (a := a) (by simp)
    have hrest : Pending c ((pre ++ [a]) ++ b :: post ++ [z]) := by simpa using h
    have hshort : post.length + 1 < n := by
      simp at hfuel
      omega
    have hwalk := ih hrest hshort
    rw [getLast?_concat] at hwalk
    simp only [lastEntry, he, bind, Option.bind, h'.next_eq he, cons_append, head?_cons, hwalk]
    simp

theorem dropOldest_spec (h : Pending c (a :: l)) (hlen : l.length < 39) :
    ∃ c', c.dropOldest a = some c' ∧ Kept c (a :: l) c' (a :: l.dropLast) ∧
      c'.numMsgs = c.numMsgs := by
  rcases eq_nil_or_concat l with rfl | ⟨front, z, rfl⟩
  · have h' : Pending c ([] ++ a :: []) := h
    obtain ⟨e, he⟩ := h'.entry (a := a) (by simp)
    have hone : lastEntry walkLimit c a none = some (a, none) := by
      simp [walkLimit, lastEntry, he, h'.next_eq he]
    exact ⟨c, by simp [dropOldest, hone], Kept.refl h, rfl⟩
  · rw [concat_eq_append] at h hlen ⊢
    have hsplit : Pending c ((a :: front) ++ z :: []) := by simpa using h
    obtain ⟨e, he⟩ := hsplit.entry (a := z) (by simp)
    have hlast : lastEntry walkLimit c a none = some (z, (a :: front).getLast?) := by
      have h₀ : Pending c ([] ++ a :: front ++ [z]) := by simpa using h
      apply lastEntry_spec h₀
      simp [walkLimit] at hlen ⊢
      omega
    obtain ⟨c₁, c₂, hrelink, hfree, _, hun⟩ := hsplit.unlink he
    have hnull : e.next = none := hsplit.next_eq he
    obtain ⟨p, hp⟩ : ∃ p, (a :: front).getLast? = some p :=
      isSome_iff_exists.mp (by simp)
    rw [hnull, hp] at hrelink
    rw [hp] at hlast
    refine ⟨c₂, by simp [dropOldest, hlast, hrelink, hfree], ?_, hun.numMsgs_eq⟩
    refine ⟨by simpa using hun.pending, by simp, fun b hb => ?_, hun.ident_eq⟩
    exact hun.msgAt_eq b (by simpa using hb)

/-- A request joins the list in front; `kept` is what stays of the others. -/
structure Added (c : RadiusClient) (l : List Nat) (msg : RadiusMsg) (c' : RadiusClient) (a : Nat)
    (kept : List Nat) : Prop where
  pending : Pending c' (a :: kept)
  msgAt_new : c'.msgAt a = some msg
  msgAt_eq : ∀ b ∈ kept, c'.msgAt b = c.msgAt b
  ident_eq : c'.nextRadiusIdentifier = c.nextRadiusIdentifier
  room : kept = l ∧ c.numMsgs.toNat < radiusClientMaxEntries ∧
      c'.numMsgs.toNat = c.numMsgs.toNat + 1 ∨
    kept = l.dropLast ∧ radiusClientMaxEntries ≤ c.numMsgs.toNat ∧ c'.numMsgs = c.numMsgs

theorem Pending.push (h : Pending c l) (ha : c.heap a = none) (hnext : e.next = c.msgs)
    (hid : ∀ b ∈ l, c.identAt b ≠ some e.msg.identifier) :
    Pending { c with heap := update c.heap a (some e), msgs := some a } (a :: l) ∧
      ∀ b ∈ l, RadiusClient.msgAt
        { c with heap := update c.heap a (some e), msgs := some a } b = c.msgAt b := by
  have hal : a ∉ l := by
    intro hmem
    have := h.allocated a hmem
    simp [ha] at this
  have hmsg : ∀ b ∈ l, (c.put a (some e)).msgAt b = c.msgAt b := by
    intro b hb
    simp [msgAt, put_heap_of_ne (ne_of_mem_of_not_mem hb hal)]
  refine ⟨⟨⟨rfl, ?_⟩, ?_, ?_⟩, hmsg⟩
  · show Chain (c.put a (some e)).next ((c.put a (some e)).next a) l
    rw [put_next]
    simp only [update_self, bind_some, hnext]
    exact h.chain.update_of_not_mem hal _
  · intro b hb
    rcases mem_cons.mp hb with rfl | hb
    · simp
    · exact isSome_heap_of_msgAt (hmsg b hb) (h.allocated b hb)
  · show ((a :: l).map (c.put a (some e)).identAt).Nodup
    rw [map_cons, nodup_cons, map_identAt_congr hmsg]
    refine ⟨?_, h.distinct⟩
    intro hmem
    obtain ⟨b, hb, heq⟩ := mem_map.mp hmem
    apply hid b hb
    rw [heq]
    simp [identAt, msgAt]

theorem radiusClientListAdd_spec (terminated : Bool) (choice : Option Nat) {msg : RadiusMsg}
    (msgType : RadiusType) (secret : List (BitVec 8)) (apIdx : Fin maxMbssidNum) (now : Int)
    (h : Pending c l) (hlen : l.length < 39) (hid : ∀ b ∈ l, c.identAt b ≠ some msg.identifier) :
    c.radiusClientListAdd terminated choice msg msgType secret apIdx now = some c ∨
      ∃ c' a kept, c.radiusClientListAdd terminated choice msg msgType secret apIdx now = some c' ∧
        Added c l msg c' a kept := by
  unfold radiusClientListAdd
  cases terminated with
  | true => exact .inl rfl
  | false =>
    cases hm : c.malloc choice with
    | none => exact .inl rfl
    | some a =>
      right
      have hfree : c.heap a = none := by
        obtain ⟨_, hnone⟩ := filter_eq_some_iff.mp hm
        simpa using hnone
      simp only [Bool.false_eq_true, if_false]
      obtain ⟨hpush, hmsg⟩ := h.push (e := ⟨msg, msgType, now, now + radiusClientFirstWait, 1,
        radiusClientFirstWait * 2, secret, apIdx, c.msgs⟩) hfree rfl hid
      split
      · next hfull =>
        obtain ⟨c', hdrop, hkept, hnum⟩ := dropOldest_spec hpush hlen
        refine ⟨c', a, l.dropLast, hdrop, hkept.pending, ?_, fun b hb => ?_, hkept.ident_eq,
          .inr ⟨rfl, hfull, hnum⟩⟩
        · rw [hkept.msgAt_eq a mem_cons_self]
          simp [msgAt]
        · rw [hkept.msgAt_eq b (mem_cons_of_mem a hb)]
          exact hmsg b (mem_of_mem_dropLast hb)
      · next hroom =>
        refine ⟨_, a, l, rfl, ⟨hpush.chain, hpush.allocated, hpush.distinct⟩, by simp [msgAt], hmsg,
          rfl, .inl ⟨rfl, Nat.lt_of_not_le hroom, ?_⟩⟩
        have hlt : c.numMsgs.toNat + 1 < 2 ^ 32 := by
          simp [radiusClientMaxEntries] at hroom
          omega
        have hone : BitVec.toNat (1 : BitVec 32) = 1 := rfl
        rw [BitVec.toNat_add, hone, Nat.mod_eq_of_lt hlt]

/-! ## Runs -/

/-- The entries a walk along the list meets. -/
def walk : Nat → RadiusClient → Option Nat → List Nat
  | 0, _, _ => []
  | _ + 1, _, none => []
  | n + 1, c, some a => a :: walk n c (c.next a)

def entries (c : RadiusClient) : List Nat := walk walkLimit c c.msgs

theorem walk_eq {n : Nat} {p : Option Nat} (h : Chain c.next p l) (hlen : l.length ≤ n) :
    walk n c p = l := by
  induction l generalizing p n with
  | nil =>
    obtain rfl : p = none := h
    cases n with
    | zero => rfl
    | succ n => rfl
  | cons b l ih =>
    obtain ⟨rfl, hrest⟩ := h
    obtain ⟨m, rfl⟩ : ∃ m, n = m + 1 := ⟨n - 1, by simp at hlen; omega⟩
    rw [walk, ih hrest (by simpa using hlen)]

/-- **What every run keeps**, whatever identifiers are used: the list is in order, and the
    counter is at least its length and at most the limit. -/
structure Ok (c : RadiusClient) : Prop where
  pending : Pending c c.entries
  length_le : c.entries.length ≤ c.numMsgs.toNat
  numMsgs_le : c.numMsgs.toNat ≤ radiusClientMaxEntries

theorem Pending.entries_eq (h : Pending c l) (hlen : l.length ≤ radiusClientMaxEntries) :
    c.entries = l :=
  walk_eq h.chain (hlen.trans (by decide))

theorem Pending.ok (h : Pending c l) (hlen : l.length ≤ c.numMsgs.toNat)
    (hnum : c.numMsgs.toNat ≤ radiusClientMaxEntries) : Ok c := by
  have heq := h.entries_eq (hlen.trans hnum)
  exact ⟨heq ▸ h, heq ▸ hlen, hnum⟩

theorem Ok.lt_walkLimit (h : Ok c) : c.entries.length < walkLimit :=
  (h.length_le.trans h.numMsgs_le).trans_lt (by decide)

def Counted (c : RadiusClient) : Prop := c.numMsgs.toNat = c.entries.length

/-- What replies, timers and flushes do. -/
structure Shrunk (c c' : RadiusClient) : Prop where
  ok : Ok c'
  kept : Kept c c.entries c' c'.entries
  counted : Counted c → Counted c'

theorem Shrunk.refl (h : Ok c) : Shrunk c c := ⟨h, Kept.refl h.pending, fun hc => hc⟩

theorem Fewer.shrunk {l' : List Nat} (hfew : Fewer c c.entries c' l') (h : Ok c) : Shrunk c c' := by
  obtain ⟨hlen, hnum⟩ := hfew.bounds h.length_le
  have hnum' := hnum.trans h.numMsgs_le
  have heq := hfew.pending.entries_eq (hlen.trans hnum')
  refine ⟨hfew.pending.ok hlen hnum', heq ▸ hfew.toKept, fun hcount => ?_⟩
  rw [Counted, heq]
  exact hfew.exact hcount

section

variable (h : Ok c)

include h

theorem Ok.takeRequest (msgType : RadiusType) (id : BitVec 8) :
    c.takeRequest msgType id = some (c, none) ∨
      ∃ c' a e, c.takeRequest msgType id = some (c', some e) ∧ Shrunk c c' ∧
        a ∈ c.entries ∧ c.heap a = some e ∧ e.msg.identifier = id := by
  rcases takeRequest_spec msgType id h.pending h.lt_walkLimit with
    hnone | ⟨c', l', a, e, heq, hfew, hfound⟩
  · exact .inl hnone
  · exact .inr ⟨c', a, e, heq, hfew.shrunk h, hfound⟩

theorem Ok.timer (now : Int) : ∃ c', c.radiusClientTimer now = some c' ∧ Shrunk c c' := by
  obtain ⟨c', l', heq, hfew⟩ := radiusClientTimer_spec h.pending h.lt_walkLimit now
  exact ⟨c', heq, hfew.shrunk h⟩

theorem Ok.retryPrimary (ready : Fin maxMbssidNum → Bool) :
    ∃ c', c.radiusRetryPrimaryTimer ready = some c' ∧ Shrunk c c' := by
  obtain ⟨c', l', heq, hfew⟩ := radiusRetryPrimaryTimer_spec h.pending h.lt_walkLimit ready
  exact ⟨c', heq, hfew.shrunk h⟩

theorem Ok.flush : ∃ c', c.radiusClientFlush = some c' ∧ Shrunk c c' := by
  obtain ⟨c', heq, hpend, hnum, hid⟩ := radiusClientFlush_spec h.pending h.lt_walkLimit
  have hentries : c'.entries = [] := hpend.entries_eq (by simp)
  refine ⟨c', heq, hpend.ok (by simp) (by simp [hnum]), ?_, fun _ => by simp [Counted, hnum, hentries]⟩
  rw [hentries]
  exact ⟨hpend, nil_sublist _, by simp, hid⟩

theorem Ok.getId : ∃ c', c.radiusClientGetId = some (c', c.nextRadiusIdentifier) ∧ Ok c' ∧
      c'.entries.Sublist c.entries ∧ (∀ b ∈ c'.entries, c'.msgAt b = c.msgAt b) ∧
      (∀ b ∈ c'.entries, c'.identAt b ≠ some c.nextRadiusIdentifier) ∧
      c'.numMsgs = c.numMsgs ∧
      ((∀ b ∈ c.entries, c.identAt b ≠ some c.nextRadiusIdentifier) → c'.entries = c.entries) := by
  obtain ⟨c', l', heq, hpend, hsub, hmsg, hids, hnum, _, hsame⟩ :=
    radiusClientGetId_spec h.pending h.lt_walkLimit
  have hlen : l'.length ≤ c'.numMsgs.toNat := by
    rw [hnum]
    exact hsub.length_le.trans h.length_le
  have hnum' : c'.numMsgs.toNat ≤ radiusClientMaxEntries := by
    rw [hnum]
    exact h.numMsgs_le
  obtain rfl : c'.entries = l' := hpend.entries_eq (hlen.trans hnum')
  exact ⟨c', heq, ⟨hpend, hlen, hnum'⟩, hsub, hmsg, hids, hnum, hsame⟩

theorem Ok.send (terminated : Bool) (choice : Option Nat) (msg : RadiusMsg)
    (apIdx : Fin maxMbssidNum) (now : Int)
    (hid : ∀ b ∈ c.entries, c.identAt b ≠ some msg.identifier) :
    ∃ c', c.radiusClientSend terminated choice msg .radiusAuth apIdx now = some c' ∧ Ok c' ∧
      (∀ b ∈ c'.entries, c'.msgAt b = some msg ∨ b ∈ c.entries ∧ c'.msgAt b = c.msgAt b) ∧
      (Counted c → Counted c') ∧
      (∀ b ∈ c.entries, b ∉ c'.entries → radiusClientMaxEntries ≤ c.numMsgs.toNat) := by
  have hlim := h.numMsgs_le
  have hle := h.length_le
  rcases radiusClientListAdd_spec terminated choice .radiusAuth (c.secretOf apIdx) apIdx now h.pending
    (lt_of_le_of_lt (hle.trans hlim) (by decide)) hid with hsame | ⟨c', a, kept, heq, hadd⟩
  · exact ⟨c, hsame, h, fun b hb => .inr ⟨hb, rfl⟩, fun hc => hc, fun b hb hnb => absurd hb hnb⟩
  · have hsub : kept.Sublist c.entries := by
      rcases hadd.room with ⟨rfl, _⟩ | ⟨rfl, _⟩
      · exact List.Sublist.refl _
      · exact dropLast_sublist _
    have hcount : (a :: kept).length ≤ c'.numMsgs.toNat ∧
        c'.numMsgs.toNat ≤ radiusClientMaxEntries := by
      rw [length_cons]
      rcases hadd.room with ⟨rfl, hroom, hnum⟩ | ⟨rfl, hfull, hnum⟩
      · omega
      · rw [hnum, length_dropLast]
        have hpos : 1 ≤ radiusClientMaxEntries := by decide
        omega
    have hentries := hadd.pending.entries_eq (hcount.1.trans hcount.2)
    refine ⟨c', heq, hadd.pending.ok hcount.1 hcount.2, fun b hb => ?_, fun hc => ?_,
      fun b hb hnb => ?_⟩
    · rw [hentries] at hb
      rcases mem_cons.mp hb with rfl | hb
      · exact .inl hadd.msgAt_new
      · exact .inr ⟨hsub.subset hb, hadd.msgAt_eq b hb⟩
    · rw [Counted] at hc
      rw [Counted, hentries, length_cons]
      rcases hadd.room with ⟨rfl, _, hnum⟩ | ⟨rfl, hfull, hnum⟩
      · omega
      · rw [hnum, length_dropLast]
        have hpos : 1 ≤ radiusClientMaxEntries := by decide
        omega
    · rcases hadd.room with ⟨rfl, _⟩ | ⟨_, hfull, _⟩
      · exact absurd (hentries ▸ mem_cons_of_mem a hb) hnb
      · exact hfull

/-- The identifier that is handed out next is not that of a pending request. -/
def IdentUnused (c : RadiusClient) : Prop :=
  ∀ b ∈ c.entries, c.identAt b ≠ some c.nextRadiusIdentifier

/-- **Request lemma**: afterwards the only pending request with the identifier is the new
    one, and the others are as they were. -/
theorem Ok.accessRequest (station : Nat) (built terminated : Bool) (choice : Option Nat)
    (apIdx : Fin maxMbssidNum) (now : Int) :
    ∃ c', c.accessRequest station built terminated choice apIdx now =
        some (c', c.nextRadiusIdentifier) ∧ Ok c' ∧
      (∀ b ∈ c'.entries, c'.msgAt b = some ⟨c.nextRadiusIdentifier, station⟩ ∨
        b ∈ c.entries ∧ c'.msgAt b = c.msgAt b ∧ c'.identAt b ≠ some c.nextRadiusIdentifier) ∧
      (IdentUnused c → Counted c → Counted c') := by
  obtain ⟨c₁, hget, hok₁, hsub, hmsg, hids, hnum, hsame⟩ := h.getId
  have hcount : IdentUnused c → Counted c → Counted c₁ := by
    intro hp hc
    rw [Counted, hnum, hsame hp]
    exact hc
  cases built with
  | false =>
    refine ⟨c₁, by simp [RadiusClient.accessRequest, hget], hok₁, fun b hb => ?_, hcount⟩
    exact .inr ⟨hsub.subset hb, hmsg b hb, hids b hb⟩
  | true =>
    obtain ⟨c₂, hsend, hok₂, hmsg₂, hcount₂, _⟩ :=
      hok₁.send terminated choice ⟨c.nextRadiusIdentifier, station⟩ apIdx now hids
    refine ⟨c₂, by simp [RadiusClient.accessRequest, hget, hsend], hok₂, fun b hb => ?_,
      fun hp hc => hcount₂ (hcount hp hc)⟩
    rcases hmsg₂ b hb with hnew | ⟨hb₁, heq⟩
    · exact .inl hnew
    · refine .inr ⟨hsub.subset hb₁, heq.trans (hmsg b hb₁), ?_⟩
      rw [identAt, heq]
      exact hids b hb₁

/-- A call uses no identifier whose request is pending. -/
def Prudent (c : RadiusClient) : RadiusCall → Prop
  | .request .. => c.IdentUnused
  | _ => True

/-- **Call lemma**: no call goes astray in memory, and a prudent one keeps the counter. -/
theorem Ok.call (e : RadiusCall) :
    ∃ c', c.call e = some c' ∧ Ok c' ∧ (Prudent c e → Counted c → Counted c') := by
  cases e with
  | request station built terminated choice apIdx now =>
    obtain ⟨c', heq, hok, _, hcount⟩ := h.accessRequest station built terminated choice apIdx now
    exact ⟨c', by simp [RadiusClient.call, heq], hok, hcount⟩
  | reply msgType identifier =>
    rcases h.takeRequest msgType identifier with hnone | ⟨c', a, e, heq, hshrunk, _⟩
    · exact ⟨c, by simp [RadiusClient.call, hnone], h, fun _ hc => hc⟩
    · exact ⟨c', by simp [RadiusClient.call, heq], hshrunk.ok, fun _ => hshrunk.counted⟩
  | timer now =>
    obtain ⟨c', heq, hshrunk⟩ := h.timer now
    exact ⟨c', heq, hshrunk.ok, fun _ => hshrunk.counted⟩
  | retryPrimary ready =>
    obtain ⟨c', heq, hshrunk⟩ := h.retryPrimary ready
    exact ⟨c', heq, hshrunk.ok, fun _ => hshrunk.counted⟩
  | flush =>
    obtain ⟨c', heq, hshrunk⟩ := h.flush
    exact ⟨c', heq, hshrunk.ok, fun _ => hshrunk.counted⟩

/-- The list as it should be: linked, counted, within the limit, with distinct identifiers
    and allocated entries. -/
structure Intact (c : RadiusClient) : Prop where
  linked : Chain c.next c.msgs c.entries
  counted : c.numMsgs.toNat = c.entries.length
  limit : c.numMsgs.toNat ≤ radiusClientMaxEntries
  distinct : (c.entries.map c.identAt).Nodup
  allocated : ∀ a ∈ c.entries, (c.heap a).isSome

theorem Ok.intact (hc : Counted c) : Intact c :=
  ⟨h.pending.chain, hc, h.numMsgs_le, h.pending.distinct, h.pending.allocated⟩

/-- `Radius_client_list_add` gives up a pending request only when the limit is reached. -/
def DropsWhenFull (c : RadiusClient) : RadiusCall → Prop
  | .request station _ terminated choice apIdx now => ∀ c₁ id c₂,
      c.radiusClientGetId = some (c₁, id) →
      c₁.radiusClientSend terminated choice ⟨id, station⟩ .radiusAuth apIdx now = some c₂ →
      ∀ a ∈ c₁.entries, a ∉ c₂.entries → c₁.entries.length = radiusClientMaxEntries
  | _ => True

theorem Ok.dropsWhenFull (hc : Counted c) {e : RadiusCall} (hp : Prudent c e) :
    DropsWhenFull c e := by
  cases e with
  | request station built terminated choice apIdx now =>
    intro c₁ id c₂ hget hsend a ha hna
    obtain ⟨c₁', hget', hok₁, _, _, hids, hnum, hsame⟩ := h.getId
    obtain ⟨rfl, rfl⟩ := Prod.mk.inj (some.inj (hget'.symm.trans hget))
    obtain ⟨c₂', hsend', _, _, _, hfull⟩ :=
      hok₁.send terminated choice ⟨c.nextRadiusIdentifier, station⟩ apIdx now hids
    obtain rfl := some.inj (hsend'.symm.trans hsend)
    have hlimit := hfull a ha hna
    have hcount : c.numMsgs.toNat = c.entries.length := hc
    rw [hsame hp]
    rw [hnum] at hlimit
    exact le_antisymm (hcount ▸ h.numMsgs_le) (hcount ▸ hlimit)
  | reply _ _ => trivial
  | timer _ => trivial
  | retryPrimary _ => trivial
  | flush => trivial

end

instance instDecidablePrudent (c : RadiusClient) : (e : RadiusCall) → Decidable (Prudent c e)
  | .request .. => inferInstanceAs (Decidable (∀ b ∈ c.entries, _))
  | .reply .. => isTrue trivial
  | .timer _ => isTrue trivial
  | .retryPrimary _ => isTrue trivial
  | .flush => isTrue trivial

/-- A call on a client that may have gone astray. -/
def callM (s : Option RadiusClient) (e : RadiusCall) : Option RadiusClient := s.bind (·.call e)

/-- A property of the client a call is made on. -/
def OnCall (P : RadiusClient → RadiusCall → Prop) (s : Option RadiusClient) (e : RadiusCall) :
    Prop :=
  ∀ c, s = some c → P c e

instance instDecidableOnCall (P : RadiusClient → RadiusCall → Prop)
    [∀ c e, Decidable (P c e)] : (s : Option RadiusClient) → (e : RadiusCall) →
      Decidable (OnCall P s e)
  | none, _ => isTrue fun _ h => by cases h
  | some c, e => decidable_of_iff (P c e) ⟨fun h _ heq => Option.some.inj heq ▸ h, fun h => h c rfl⟩

end RadiusClient

theorem radiusClientInit_ok (ssidNum : Nat) (servers : Fin maxMbssidNum → List (List (BitVec 8))) :
    (radiusClientInit ssidNum servers).Ok ∧ (radiusClientInit ssidNum servers).Counted := by
  have hpend : RadiusClient.Pending (radiusClientInit ssidNum servers) [] :=
    ⟨rfl, by simp, by simp⟩
  exact ⟨hpend.ok (by simp) (by simp [radiusClientInit]), rfl⟩

/-- **The pending list over runs**: as long as no identifier is handed out whose request is
    still pending, the list stays intact, and requests are given up for new ones only when
    the limit is reached. -/
theorem pending_requests_run (ssidNum : Nat)
    (servers : Fin maxMbssidNum → List (List (BitVec 8))) (es : List RadiusCall)
    (hrun : Along RadiusClient.callM (RadiusClient.OnCall RadiusClient.Prudent)
      (some (radiusClientInit ssidNum servers)) es) :
    (∃ c, runEvents RadiusClient.callM (some (radiusClientInit ssidNum servers)) es = some c ∧
      c.Intact) ∧
    Along RadiusClient.callM (RadiusClient.OnCall RadiusClient.DropsWhenFull)
      (some (radiusClientInit ssidNum servers)) es := by
  have h0 : ∃ c, some (radiusClientInit ssidNum servers) = some c ∧ c.Ok ∧ c.Counted :=
    ⟨_, rfl, radiusClientInit_ok ssidNum servers⟩
  have hstep : ∀ s e, (∃ c, s = some c ∧ c.Ok ∧ c.Counted) →
      RadiusClient.OnCall RadiusClient.Prudent s e →
      ∃ c, RadiusClient.callM s e = some c ∧ c.Ok ∧ c.Counted := by
    rintro _ e ⟨c, rfl, hok, hcount⟩ hprudent
    obtain ⟨c', hcall, hok', hcount'⟩ := hok.call e
    exact ⟨c', hcall, hok', hcount' (hprudent c rfl) hcount⟩
  constructor
  · obtain ⟨c, hc, hok, hcount⟩ := hrun.invariant hstep h0
    exact ⟨c, hc, hok.intact hcount⟩
  · refine hrun.of_invariant hstep ?_ h0
    rintro _ e ⟨c, rfl, hok, hcount⟩ hprudent c' heq
    obtain rfl := Option.some.inj heq
    exact hok.dropsWhenFull hcount (hprudent c rfl)

def oneServer : Fin maxMbssidNum → List (List (BitVec 8)) := fun _ => [[]]

/-- A request of station 0 at time 0, whose entry is allocated at `a`. -/
def ask (a : Nat) : RadiusCall := .request 0 true false (some a) 0 0

/-- Two requests, a reply to the first and a timer. -/
def promptRun : List RadiusCall := [ask 0, ask 1, .reply .radiusAuth 0, .timer 5]

theorem pending_requests_prompt :
    Along RadiusClient.callM (RadiusClient.OnCall RadiusClient.Prudent)
        (some (radiusClientInit 1 oneServer)) promptRun ∧
      ∃ c, runEvents RadiusClient.callM (some (radiusClientInit 1 oneServer)) promptRun = some c ∧
        c.Intact :=
  have hrun : Along RadiusClient.callM (RadiusClient.OnCall RadiusClient.Prudent)
      (some (radiusClientInit 1 oneServer)) promptRun := by decide +kernel
  ⟨hrun, (pending_requests_run 1 oneServer promptRun hrun).1⟩

/-- Request 0 stays pending while 255 others are answered; then its identifier is used
    again, and its entry is freed without being counted out. -/
def reuseRun : List RadiusCall :=
  ask 0 :: (range 255).flatMap
    (fun k => [ask 1, .reply .radiusAuth (BitVec.ofNat 8 (k + 1))]) ++ [ask 1]

theorem identifier_reuse_miscounts :
    ¬ ∀ (ssidNum : Nat) (servers : Fin maxMbssidNum → List (List (BitVec 8)))
      (es : List RadiusCall),
      (∃ c, runEvents RadiusClient.callM (some (radiusClientInit ssidNum servers)) es = some c ∧
        c.Intact) ∧
      Along RadiusClient.callM (RadiusClient.OnCall RadiusClient.DropsWhenFull)
        (some (radiusClientInit ssidNum servers)) es := by
  intro hall
  obtain ⟨⟨c, hc, hintact⟩, _⟩ := hall 1 oneServer reuseRun
  have hcount : (runEvents RadiusClient.callM (some (radiusClientInit 1 oneServer)) reuseRun).map
      (fun c => (c.numMsgs.toNat, c.entries.length)) = some (2, 1) := by decide +kernel
  rw [hc, Option.map_some] at hcount
  have hpair := Prod.mk.inj (Option.some.inj hcount)
  have hcounted := hintact.counted
  omega

end RalinkSdk.Dot1x
