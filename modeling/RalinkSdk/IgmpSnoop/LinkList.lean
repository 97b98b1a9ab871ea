import Mathlib.Data.List.Nodup
import RalinkSdk.Lib.Chain

/-!
# The intrusive lists of the wireless driver

`link_list.h` keeps a singly linked list as a header with the first entry, the last
entry and a counter.  The links are in the entries themselves, so an operation changes
the header and the `pNext` fields of some entries; `next i` is the `pNext` field of
entry `i`.  `IsList next h l` says that header `h` stands for the list `l`.

Several lists live in one pool of entries.  `Pool next header lists loose` says that the
lists `lists k` under the headers `header k` share no entry and that together with
`loose` they hold the whole pool.

## Source

`include/link_list.h`.
-/

namespace RalinkSdk.IgmpSnoop

open Lib List Function Nat

universe u v

structure ListHeader (ι : Type u) where
  pHead : Option ι
  pTail : Option ι
  size : BitVec 8
  deriving DecidableEq

variable {ι : Type u} {κ : Type v} [DecidableEq ι] [DecidableEq κ]

/-! ## The operations -/

def initList : ListHeader ι := ⟨none, none, 0⟩

/-- `insertTailList`: the links and the header afterwards. -/
def insertTailList (next : ι → Option ι) (pList : ListHeader ι) (pEntry : ι) :
    (ι → Option ι) × ListHeader ι :=
  let next := update next pEntry none
  match pList.pTail with
  | some pTail =>
    (update next pTail (some pEntry),
      { pList with pTail := some pEntry, size := pList.size + 1 })
  | none => (next, { pHead := some pEntry, pTail := some pEntry, size := pList.size + 1 })

/-- The header after its first entry left, in `removeHeadList` and in `delEntryList`. -/
def ListHeader.dropHead (pList : ListHeader ι) (pNext : Option ι) : ListHeader ι where
  pHead := pNext
  pTail := if pNext = none then none else pList.pTail
  size := pList.size - 1

/-- `removeHeadList`: the entry taken out and the header afterwards. -/
def removeHeadList (next : ι → Option ι) (pList : ListHeader ι) : Option ι × ListHeader ι :=
  match pList.pHead with
  | none => (none, pList)
  | some pEntry => (some pEntry, pList.dropHead (next pEntry))

/-- The header after the entry behind `pPrvEntry` left. -/
def ListHeader.dropBehind (pList : ListHeader ι) (pPrvEntry pEntry : ι) : ListHeader ι :=
  { pList with
    pTail := if some pEntry = pList.pTail then some pPrvEntry else pList.pTail
    size := pList.size - 1 }

/-- The loop of `delEntryList`; `none` when it does not end within the fuel. -/
def delEntryScan (next : ι → Option ι) (pList : ListHeader ι) (pEntry : ι) :
    Nat → ι → Option ι → Option ((ι → Option ι) × ListHeader ι)
  | 0, _, _ => none
  | _ + 1, _, none => some (next, pList)
  | fuel + 1, pPrvEntry, some pCurEntry =>
    if pEntry = pCurEntry then
      some (update next pPrvEntry (next pCurEntry), pList.dropBehind pPrvEntry pEntry)
    else
      delEntryScan next pList pEntry fuel pCurEntry (next pCurEntry)

/-- `delEntryList`.  No caller reads the entry it returns. -/
def delEntryList (fuel : Nat) (next : ι → Option ι) (pList : ListHeader ι) (pEntry : ι) :
    Option ((ι → Option ι) × ListHeader ι) :=
  match pList.pHead with
  | none => some (next, pList)
  | some pHead =>
    if pEntry = pHead then
      some (next, pList.dropHead (next pHead))
    else
      delEntryScan next pList pEntry fuel pHead (next pHead)

/-! ## One list -/

/-- Header `h` stands for the list `l`. -/
structure IsList (next : ι → Option ι) (h : ListHeader ι) (l : List ι) : Prop where
  chain : Chain next h.pHead l
  tail : h.pTail = l.getLast?
  size : h.size = BitVec.ofNat 8 l.length
  nodup : l.Nodup

section

variable {next next' : ι → Option ι} {h : ListHeader ι} {l m : List ι} {e prv : ι} {fuel : Nat}

omit [DecidableEq ι] in
theorem isList_initList : IsList next initList [] :=
  ⟨rfl, rfl, rfl, nodup_nil⟩

omit [DecidableEq ι] in
theorem IsList.congr (hl : IsList next h l) (heq : ∀ i ∈ l, next' i = next i) : IsList next' h l :=
  ⟨hl.chain.congr heq, hl.tail, hl.size, hl.nodup⟩

omit [DecidableEq ι] in
theorem IsList.head (hl : IsList next h l) : h.pHead = l.head? :=
  hl.chain.head

omit [DecidableEq ι] in
private theorem ofNat_succ (n : Nat) : BitVec.ofNat 8 (n + 1) = BitVec.ofNat 8 n + 1 :=
  BitVec.ofNat_add n 1

omit [DecidableEq ι] in
private theorem ofNat_pred (n : Nat) : BitVec.ofNat 8 (n + 1) - 1 = BitVec.ofNat 8 n := by
  rw [BitVec.ofNat_add]
  exact BitVec.add_sub_cancel _ _

theorem insertTailList_links (i : ι) (hi : i ≠ e) (hlast : h.pTail ≠ some i) :
    (insertTailList next h e).1 i = next i := by
  unfold insertTailList
  cases htail : h.pTail with
  | none => simp [hi]
  | some t =>
    have hit : i ≠ t := fun heq => hlast (by rw [htail, heq])
    simp [hi, hit]

/-- **Insertion** puts the entry behind the others. -/
theorem IsList.insertTail (hl : IsList next h l) (he : e ∉ l) :
    IsList (insertTailList next h e).1 (insertTailList next h e).2 (l ++ [e]) := by
  have hnd : (l ++ [e]).Nodup := by
    rw [← concat_eq_append]
    exact hl.nodup.concat he
  have hsize : h.size + 1 = BitVec.ofNat 8 (l ++ [e]).length := by
    rw [length_append, length_singleton, ofNat_succ, hl.size]
  -- clearing the link of the new entry leaves the list alone
  have hnew : Chain (update next e none) h.pHead l :=
    hl.chain.update_of_not_mem he none
  rcases eq_nil_or_concat l with hnil | ⟨k, t, hkt⟩
  · -- the list was empty: the entry becomes its head
    have htail : h.pTail = none := by rw [hl.tail, hnil]; rfl
    unfold insertTailList
    rw [htail]
    refine ⟨?_, by simp, hsize, hnd⟩
    rw [hnil]
    simp
  · -- the old last entry is linked to the new one
    have hlk : l = k ++ [t] := by rw [hkt, concat_eq_append]
    have htail : h.pTail = some t := by rw [hl.tail, hlk]; simp
    unfold insertTailList
    rw [htail]
    rw [hlk] at hnew he hsize hnd ⊢
    refine ⟨?_, by simp, hsize, hnd⟩
    exact hnew.append (hlk ▸ hl.nodup) he (by simp)

omit [DecidableEq ι] in
theorem IsList.dropHead (hl : IsList next h (e :: l)) : IsList next (h.dropHead (next e)) l := by
  have hchain : Chain next (next e) l := hl.chain.2
  refine ⟨hchain, ?_, ?_, (nodup_cons.mp hl.nodup).2⟩
  · show (if next e = none then none else h.pTail) = l.getLast?
    rw [hchain.head, hl.tail]
    cases l with
    | nil => rfl
    | cons i l => simp
  · show h.size - 1 = BitVec.ofNat 8 l.length
    rw [hl.size, length_cons, ofNat_pred]

omit [DecidableEq ι] in
/-- **Removal at the head**. -/
theorem IsList.removeHead (hl : IsList next h (e :: l)) :
    removeHeadList next h = (some e, h.dropHead (next e)) := by
  unfold removeHeadList
  rw [hl.head]
  rfl

theorem IsList.delEntryScan {k : List ι}
    (hl : IsList next h (k ++ prv :: (l ++ e :: m))) (hfuel : l.length < fuel) :
    ∃ next' h', delEntryScan next h e fuel prv (next prv) = some (next', h') ∧
      IsList next' h' (k ++ prv :: (l ++ m)) ∧
      ∀ i, i ∉ k ++ prv :: l → next' i = next i := by
  -- the entries passed move from `l` to `k`
  induction l generalizing k prv fuel with
  | nil =>
    obtain ⟨fuel, rfl⟩ := exists_eq_add_one_of_ne_zero (Nat.ne_zero_of_lt hfuel)
    have hnext : next prv = some e := by
      obtain ⟨r, -, hr⟩ := chain_append.mp hl.chain
      exact hr.2.1
    refine ⟨_, h.dropBehind prv e, ?_, ⟨hl.chain.unlink hl.nodup, ?_, ?_, ?_⟩, ?_⟩
    · rw [hnext, IgmpSnoop.delEntryScan, if_pos rfl]
    · -- the tail moves back exactly when the last entry leaves
      show (if some e = h.pTail then some prv else h.pTail) = _
      have hnd := hl.nodup
      rw [hl.tail]
      rcases eq_nil_or_concat m with hm | ⟨m', t, hm⟩
      · simp [hm]
      · have hm' : m = m' ++ [t] := by rw [hm, concat_eq_append]
        have het : e ≠ t := by
          rintro rfl
          simp [hm', nodup_append] at hnd
        have hlast (x : List ι) : (x ++ (m' ++ [t])).getLast? = some t := by
          rw [← append_assoc]
          exact getLast?_concat
        have hold := hlast (k ++ [prv, e])
        have hnew := hlast (k ++ [prv])
        simp only [append_assoc, cons_append, nil_append] at hold hnew
        simp [hm', hold, hnew, het]
    · show h.size - 1 = _
      rw [hl.size]
      have hlen : (k ++ prv :: ([] ++ e :: m)).length = (k ++ prv :: ([] ++ m)).length + 1 := by
        simp
        omega
      rw [hlen, ofNat_pred]
    · apply List.Nodup.sublist _ hl.nodup
      simp
    · intro i hi
      have hne : i ≠ prv := fun heq => hi (by simp [heq])
      simp [hne]
  | cons c l ih =>
    obtain ⟨fuel, rfl⟩ := exists_eq_add_one_of_ne_zero (Nat.ne_zero_of_lt hfuel)
    have hnext : next prv = some c := by
      obtain ⟨r, -, hr⟩ := chain_append.mp hl.chain
      exact hr.2.1
    have hec : e ≠ c := by
      have hnd := hl.nodup
      rintro rfl
      simp [nodup_append] at hnd
    have hl' : IsList next h ((k ++ [prv]) ++ c :: (l ++ e :: m)) := by simpa using hl
    obtain ⟨next', h', hrun, hlist, hlinks⟩ := ih hl' (by simp at hfuel; omega)
    refine ⟨next', h', ?_, by simpa using hlist, ?_⟩
    · rw [hnext, IgmpSnoop.delEntryScan, if_neg hec]
      exact hrun
    · intro i hi
      apply hlinks i
      simpa using hi

/-- **Removal of any entry** of a list. -/
theorem IsList.delEntry (hl : IsList next h (l ++ e :: m)) (hfuel : l.length ≤ fuel) :
    ∃ next' h', delEntryList fuel next h e = some (next', h') ∧
      IsList next' h' (l ++ m) ∧ ∀ i, i ∉ l → next' i = next i := by
  cases l with
  | nil =>
    refine ⟨next, h.dropHead (next e), ?_, hl.dropHead, fun i _ => rfl⟩
    unfold delEntryList
    rw [hl.head]
    simp
  | cons hd l =>
    -- the head is another entry, so the scan starts behind it
    have hne : e ≠ hd := by
      have hnd := hl.nodup
      rintro rfl
      simp at hnd
    obtain ⟨next', h', hrun, hlist, hlinks⟩ :=
      IsList.delEntryScan (k := []) (l := l) hl (lt_of_succ_le hfuel)
    refine ⟨next', h', ?_, hlist, hlinks⟩
    unfold delEntryList
    rw [hl.head]
    simpa [hne] using hrun

end

/-! ## Lists that share a pool -/

/-- The lists share no entry, and an entry in none of them is the loose one. -/
structure Pool (next : ι → Option ι) (header : κ → ListHeader ι) (lists : κ → List ι)
    (loose : Option ι) : Prop where
  isList : ∀ k, IsList next (header k) (lists k)
  disjoint : ∀ i k k', i ∈ lists k → i ∈ lists k' → k = k'
  loose : ∀ i, loose = some i ↔ ∀ k, i ∉ lists k

section

variable {next next' : ι → Option ι} {header : κ → ListHeader ι} {lists : κ → List ι}
  {h' : ListHeader ι} {l m : List ι} {e : ι} {k : κ} {fuel : Nat}

theorem Pool.take (hp : Pool next header lists none) (hk : lists k = l ++ e :: m)
    (hlist : IsList next' h' (l ++ m)) (hlinks : ∀ i, i ∉ lists k → next' i = next i) :
    Pool next' (update header k h') (update lists k (l ++ m)) (some e) := by
  have hnd := (hp.isList k).nodup
  rw [hk] at hnd
  have hsub : ∀ i, i ∈ l ++ m → i ∈ lists k := by
    intro i hi
    rw [hk]
    simp only [mem_append, mem_cons] at hi ⊢
    tauto
  have hout : e ∉ l ++ m := by
    have hperm : (l ++ e :: m).Perm (e :: (l ++ m)) := perm_middle
    exact (nodup_cons.mp (hperm.nodup_iff.mp hnd)).1
  -- a list afterwards has only entries it had before
  have hold : ∀ i j, i ∈ update lists k (l ++ m) j → i ∈ lists j := by
    intro i j hi
    by_cases hj : j = k
    · subst hj
      exact hsub i (by simpa using hi)
    · simpa [hj] using hi
  refine ⟨?_, ?_, ?_⟩
  · intro j
    by_cases hj : j = k
    · subst hj
      simpa using hlist
    · have hother : ∀ i ∈ lists j, next' i = next i := by
        intro i hi
        apply hlinks
        intro hik
        exact hj (hp.disjoint i j k hi hik)
      simpa [hj] using (hp.isList j).congr hother
  · intro i j j' hi hi'
    exact hp.disjoint i j j' (hold i j hi) (hold i j' hi')
  · intro i
    constructor
    · intro hie j hij
      obtain rfl : e = i := Option.some.inj hie
      by_cases hj : j = k
      · subst hj
        exact hout (by simpa using hij)
      · have hek : e ∈ lists k := by rw [hk]; simp
        exact hj (hp.disjoint e j k (hold e j hij) hek)
    · intro hnone
      -- every entry was in some list before, and only `e` left one
      by_contra hie
      have hin : ¬ ∀ j, i ∉ lists j := fun h => absurd ((hp.loose i).mpr h) (by simp)
      push Not at hin
      obtain ⟨j, hij⟩ := hin
      apply hnone j
      by_cases hj : j = k
      · subst hj
        rw [hk] at hij
        have hne : i ≠ e := fun h => hie (by rw [h])
        simp only [mem_append, mem_cons] at hij
        simp only [update_self, mem_append]
        tauto
      · simpa [hj] using hij

/-- **Removal at the head** of one of the lists. -/
theorem Pool.removeHead (hp : Pool next header lists none) (hk : lists k = e :: l) :
    Pool next (update header k ((header k).dropHead (next e)))
      (update lists k l) (some e) := by
  have hlist := hp.isList k
  rw [hk] at hlist
  exact hp.take (l := []) (m := l) hk hlist.dropHead fun i _ => rfl

/-- **Removal of any entry** of one of the lists. -/
theorem Pool.delEntry (hp : Pool next header lists none) (hk : lists k = l ++ e :: m)
    (hfuel : l.length ≤ fuel) : ∃ next' h', delEntryList fuel next (header k) e = some (next', h') ∧
      (∀ i, i ∉ l → next' i = next i) ∧
      Pool next' (update header k h') (update lists k (l ++ m)) (some e) := by
  have hlist := hp.isList k
  rw [hk] at hlist
  obtain ⟨next', h', hrun, hrest, hlinks⟩ := hlist.delEntry hfuel
  refine ⟨next', h', hrun, hlinks, hp.take hk hrest ?_⟩
  intro i hi
  apply hlinks
  intro hil
  exact hi (by rw [hk]; exact mem_append_left _ hil)

omit [DecidableEq κ] in
theorem Pool.relink_loose (hp : Pool next header lists (some e)) (r : Option ι) :
    Pool (update next e r) header lists (some e) := by
  refine ⟨?_, hp.disjoint, hp.loose⟩
  intro j
  apply (hp.isList j).congr
  intro i hi
  have hne : i ≠ e := ne_of_mem_of_not_mem hi ((hp.loose e).mp rfl j)
  simp [hne]

/-- **Insertion** of the loose entry into one of the lists. -/
theorem Pool.insertTail (hp : Pool next header lists (some e)) (k : κ) :
    Pool (insertTailList next (header k) e).1
      (update header k (insertTailList next (header k) e).2)
      (update lists k (lists k ++ [e])) none := by
  have hout := (hp.loose e).mp rfl
  refine ⟨?_, ?_, ?_⟩
  · intro j
    by_cases hj : j = k
    · subst hj
      simpa using (hp.isList j).insertTail (hout j)
    · -- the links written are those of `e` and of the last entry of list `k`
      have hother : ∀ i ∈ lists j, (insertTailList next (header k) e).1 i = next i := by
        intro i hi
        apply insertTailList_links i (ne_of_mem_of_not_mem hi (hout j))
        intro hlast
        rw [(hp.isList k).tail] at hlast
        exact hj (hp.disjoint i j k hi (mem_of_getLast? hlast))
      simpa [hj] using (hp.isList j).congr hother
  -- an entry of a list was there before or is the new one
  · have hcase : ∀ i j, i ∈ update lists k (lists k ++ [e]) j →
        i ∈ lists j ∨ i = e ∧ j = k := by
      intro i j hi
      by_cases hj : j = k
      · subst hj
        simpa using hi
      · left
        simpa [hj] using hi
    intro i j j' hi hi'
    rcases hcase i j hi with hij | ⟨hie, hj⟩ <;> rcases hcase i j' hi' with hij' | ⟨hie', hj'⟩
    · exact hp.disjoint i j j' hij hij'
    · exact absurd hij (hie' ▸ hout j)
    · exact absurd hij' (hie ▸ hout j')
    · rw [hj, hj']
  · intro i
    constructor
    · intro h
      exact absurd h (by simp)
    · intro hnone
      -- an entry in no list now was in none before, so it was the loose one
      have hnot : ∀ j, i ∉ lists j := by
        intro j hij
        apply hnone j
        by_cases hj : j = k
        · subst hj
          simp [hij]
        · simpa [hj] using hij
      obtain rfl : e = i := Option.some.inj ((hp.loose i).mpr hnot)
      exact absurd (hnone k) (by simp)

end

end RalinkSdk.IgmpSnoop
