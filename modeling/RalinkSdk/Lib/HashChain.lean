import Mathlib.Data.List.Nodup
import RalinkSdk.Lib.Chain

/-!
# Walks along links and hash tables of chains

Nodes of a type `ι` in memory, each with a link.  `follow` walks along the links until a node is
the one looked for, and keeps the node before it.  `HashChains` says of a table of such chains
that every node in use is on the chain of its bucket, once, and on no other.
-/

namespace RalinkSdk.Lib

open List Function

universe u v w

variable {ι : Type u} {ε : Type v}

/-! ## Walks -/

/-- Walk from `p` until `stop` holds; the node before, and the node or null.  `none` stands for
    a node that cannot be read, or for a walk of more than the given number of links. -/
def follow (read : ι → Option ε) (link : ε → Option ι) (stop : ι → ε → Bool) :
    Nat → Option ι → Option ι → Option (Option ι × Option ι)
  | 0, _, _ => none
  | _ + 1, prev, none => some (prev, none)
  | n + 1, prev, some i =>
    (read i).bind fun e =>
      if stop i e then some (prev, some i) else follow read link stop n (some i) (link e)

section

variable {read : ι → Option ε} {link : ε → Option ι} {stop : ι → ε → Bool} {p prev : Option ι}
  {l m : List ι} {i : ι} {e : ε} {fuel : Nat}

theorem follow_seg {q : Option ι} (h : Seg (fun i => (read i).bind link) p l q)
    (hread : ∀ j ∈ l, ∃ e, read j = some e ∧ stop j e = false) (hfuel : l.length < fuel) :
    follow read link stop fuel prev p =
      follow read link stop (fuel - l.length) (l.getLast?.or prev) q := by
  induction l generalizing p prev fuel with
  | nil =>
    obtain rfl : p = q := h
    rfl
  | cons j l ih =>
    obtain ⟨rfl, hrest⟩ := h
    obtain ⟨e, he, hstop⟩ := hread j mem_cons_self
    obtain ⟨n, rfl⟩ : ∃ n, fuel = n + 1 := ⟨fuel - 1, by simp at hfuel; omega⟩
    have hlast : ((j :: l).getLast?.or prev) = l.getLast?.or (some j) := by
      cases l with
      | nil => rfl
      | cons k l => simp [getLast?_cons]
    have hlink : (read j).bind link = link e := by rw [he]; rfl
    simp only [hlink] at hrest
    have hsub : n + 1 - (j :: l).length = n - l.length := by simp
    rw [hlast, hsub, ← ih hrest (fun k hk => hread k (mem_cons_of_mem j hk))
      (by simpa using hfuel)]
    simp [follow, he, hstop]

/-- **The node is found**, with the one before it. -/
theorem follow_found (h : Chain (fun i => (read i).bind link) p (l ++ i :: m))
    (hread : ∀ j ∈ l, ∃ e, read j = some e ∧ stop j e = false) (he : read i = some e)
    (hstop : stop i e = true) (hfuel : l.length < fuel) :
    follow read link stop fuel prev p = some (l.getLast?.or prev, some i) := by
  obtain ⟨q, hseg, rfl, -⟩ := chain_append.mp h
  obtain ⟨n, hn⟩ : ∃ n, fuel - l.length = n + 1 := ⟨fuel - l.length - 1, by omega⟩
  rw [follow_seg hseg hread hfuel, hn]
  simp [follow, he, hstop]

/-- **The walk ends** at the end of the chain. -/
theorem follow_not_found (h : Chain (fun i => (read i).bind link) p l)
    (hread : ∀ j ∈ l, ∃ e, read j = some e ∧ stop j e = false) (hfuel : l.length < fuel) :
    follow read link stop fuel prev p = some (l.getLast?.or prev, none) := by
  obtain ⟨n, hn⟩ : ∃ n, fuel - l.length = n + 1 := ⟨fuel - l.length - 1, by omega⟩
  rw [follow_seg h hread hfuel, hn]
  rfl

end

/-! ## Hash tables -/

variable {κ : Type w}

/-- Every node in use is on the chain of its bucket, once, and the chains hold no other nodes. -/
def HashChains (next : ι → Option ι) (head : κ → Option ι) (bucket : ι → Option κ) : Prop :=
  ∀ k, ∃ l, Chain next (head k) l ∧ l.Nodup ∧ ∀ i, i ∈ l ↔ bucket i = some k

namespace HashChains

variable {next next' : ι → Option ι} {head : κ → Option ι} {bucket : ι → Option κ} {i : ι} {k : κ}

theorem empty (hhead : ∀ k, head k = none) (hbucket : ∀ i, bucket i = none) :
    HashChains next head bucket := by
  intro k
  exact ⟨[], hhead k, nodup_nil, by simp [hbucket]⟩

theorem congr (h : HashChains next head bucket)
    (hnext : ∀ i, (bucket i).isSome → next' i = next i) : HashChains next' head bucket := by
  intro k
  obtain ⟨l, hchain, hnodup, hmem⟩ := h k
  refine ⟨l, hchain.congr fun i hi => hnext i ?_, hnodup, hmem⟩
  rw [(hmem i).mp hi]
  rfl

variable [DecidableEq ι]

theorem other_mem {l : List ι} {k' : κ} (hmem : ∀ j, j ∈ l ↔ bucket j = some k') {b : Option κ}
    (hb : b ≠ some k') (hi : bucket i ≠ some k') (j : ι) :
    j ∈ l ↔ update bucket i b j = some k' := by
  by_cases hj : j = i
  · subst hj
    rw [update_self, hmem j]
    exact iff_of_false hi hb
  · rw [update_of_ne hj]
    exact hmem j

variable [DecidableEq κ]

variable (h : HashChains next head bucket)

include h

/-- **In front**: a node that is not in use joins the chain of `k` as its first node. -/
theorem push (hi : bucket i = none) (k : κ) (hlink : next' i = head k)
    (hnext : ∀ j, j ≠ i → next' j = next j) :
    HashChains next' (update head k (some i)) (update bucket i (some k)) := by
  intro k'
  obtain ⟨l, hchain, hnodup, hmem⟩ := h k'
  have hil : i ∉ l := by
    rw [hmem i, hi]
    simp
  have hchain' : Chain next' (head k') l :=
    hchain.congr fun j hj => hnext j (ne_of_mem_of_not_mem hj hil)
  by_cases hk : k' = k
  · subst hk
    refine ⟨i :: l, ⟨by simp, ?_⟩, nodup_cons.mpr ⟨hil, hnodup⟩, ?_⟩
    · rw [hlink]
      exact hchain'
    · intro j
      by_cases hj : j = i
      · simp [hj]
      · simp [hj, hmem j]
  · refine ⟨l, ?_, hnodup, other_mem hmem (by simpa using Ne.symm hk) (by simp [hi])⟩
    rw [update_of_ne hk]
    exact hchain'

/-- **At the end**: a node that is not in use joins the chain of `k` as its last node. -/
theorem append (hi : bucket i = none) {l : List ι} {a : ι} (hchain : Chain next (head k) (l ++ [a]))
    (hnull : next i = none) :
    HashChains (update next a (some i)) head (update bucket i (some k)) := by
  intro k'
  obtain ⟨l', hchain', hnodup, hmem⟩ := h k'
  have hil : i ∉ l' := by
    rw [hmem i, hi]
    simp
  by_cases hk : k' = k
  · subst hk
    obtain rfl := hchain'.unique hchain
    refine ⟨l ++ [a] ++ [i], hchain'.append hnodup hil hnull, ?_, ?_⟩
    · rw [nodup_append]
      refine ⟨hnodup, nodup_singleton i, ?_⟩
      intro x hx y hy
      rw [mem_singleton.mp hy]
      exact ne_of_mem_of_not_mem hx hil
    · intro j
      by_cases hj : j = i
      · simp [hj]
      · rw [mem_append, hmem j]
        simp [hj]
  · refine ⟨l', ?_, hnodup, other_mem hmem (by simpa using Ne.symm hk) (by simp [hi])⟩
    -- the last node of the other chain is not on this one
    apply hchain'.update_of_not_mem
    intro ha
    obtain ⟨m, hm, -, hmem'⟩ := h k
    obtain rfl := hm.unique hchain
    have hak := (hmem' a).mp (by simp)
    rw [(hmem a).mp ha] at hak
    exact hk (Option.some.inj hak)

/-- **Out of the front**: the first node of the chain of `k` leaves. -/
theorem unlink_head {m : List ι} (hchain : Chain next (head k) (i :: m)) :
    HashChains next (update head k (next i)) (update bucket i none) := by
  intro k'
  obtain ⟨l, hchain', hnodup, hmem⟩ := h k'
  by_cases hk : k' = k
  · subst hk
    obtain rfl := hchain'.unique hchain
    rw [nodup_cons] at hnodup
    refine ⟨m, ?_, hnodup.2, ?_⟩
    · rw [update_self]
      exact hchain.2
    · intro j
      by_cases hj : j = i
      · subst hj
        simp [hnodup.1]
      · rw [update_of_ne hj, ← hmem j]
        simp [hj]
  · have hki : bucket i = some k := by
      obtain ⟨m', hm', -, hmem'⟩ := h k
      obtain rfl := hm'.unique hchain
      exact (hmem' i).mp mem_cons_self
    refine ⟨l, ?_, hnodup, other_mem hmem (by simp) (by simp [hki, Ne.symm hk])⟩
    rw [update_of_ne hk]
    exact hchain'

/-- **Out of the middle**: the node behind `a` leaves the chain of `k`. -/
theorem unlink {l m : List ι} {a : ι} (hchain : Chain next (head k) (l ++ a :: i :: m)) :
    HashChains (update next a (next i)) head (update bucket i none) := by
  intro k'
  obtain ⟨l', hchain', hnodup, hmem⟩ := h k'
  by_cases hk : k' = k
  · subst hk
    obtain rfl := hchain'.unique hchain
    have hout : i ∉ l ++ a :: m ∧ (l ++ a :: m).Nodup := by
      have hsplit : l ++ a :: i :: m = (l ++ [a]) ++ i :: m := by simp
      rw [hsplit, nodup_middle, nodup_cons] at hnodup
      simpa using hnodup
    refine ⟨l ++ a :: m, hchain.unlink hnodup, hout.2, ?_⟩
    intro j
    by_cases hj : j = i
    · subst hj
      simpa using hout.1
    · rw [update_of_ne hj, ← hmem j]
      simp [hj]
  · obtain ⟨m', hm', -, hmem'⟩ := h k
    obtain rfl := hm'.unique hchain
    have hki : bucket i = some k := (hmem' i).mp (by simp)
    have hka : bucket a = some k := (hmem' a).mp (by simp)
    refine ⟨l', ?_, hnodup, other_mem hmem (by simp) (by simp [hki, Ne.symm hk])⟩
    apply hchain'.update_of_not_mem
    intro ha
    rw [(hmem a).mp ha] at hka
    exact hk (Option.some.inj hka)

end HashChains

end RalinkSdk.Lib
