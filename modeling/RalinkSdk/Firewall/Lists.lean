import RalinkSdk.Lib.Delimited
import RalinkSdk.Firewall.Rules

/-!
# Lists in a setting: the functions that read and change them

A setting that holds a list is a text with a delimiter between its items.  `utils.c` and
`firewall.c` have several functions for such texts, each with a scan of its own.  Below they are
compared with the list of the items, `value.splitOn delimit`.

## Source

`user/goahead/src_tongyong/utils.c`, `firewall.c`.
-/

namespace RalinkSdk.Firewall

open Lib List Option Nat

/-! ## Reading -/

theorem nthValue_eq (delimit : Char) (n : Nat) (s : Str) :
    nthValue delimit n s = (s.splitOn delimit)[n]? := by
  induction n generalizing s with
  | zero =>
    rw [nthValue, splitOn_cut]
    cases hdrop : s.dropWhile (· ≠ delimit) with
    | nil =>
      have hs : s.takeWhile (· ≠ delimit) = s := by
        have hsplit := takeWhile_append_dropWhile (p := (· ≠ delimit)) (l := s)
        rwa [hdrop, append_nil] at hsplit
      rw [hs]
      rfl
    | cons c rest => rfl
  | succ n ih =>
    rw [nthValue, splitOn_cut]
    cases s.dropWhile (· ≠ delimit) with
    | nil => rfl
    | cons c rest => exact ih rest

theorem getNums_eq (s : Str) (delimit : Char) : getNums s delimit = (s.splitOn delimit).length :=
  (length_splitOn delimit s).symm

theorem getNthValueSafe_eq (i : Nat) (s : Str) (delimit : Char) (len : Nat) :
    getNthValueSafe i s delimit len = (s.splitOn delimit)[i]?.map (·.take (len - 1)) := by
  rw [getNthValueSafe, nthValue_eq]

/-- `getValueCount` from the second character on: the loop looks at the character behind the one it
    has tested. -/
def valueCountFrom (cnt : Nat) : Str → Nat
  | [] => cnt
  | _ :: rest => valueCountFrom (if rest.head? = some ';' then cnt + 1 else cnt) rest

def getValueCount (values : Str) : Nat := valueCountFrom 0 values + 1

theorem valueCountFrom_eq (cnt : Nat) (s : Str) :
    valueCountFrom cnt s = cnt + s.tail.count ';' := by
  induction s generalizing cnt with
  | nil => rfl
  | cons c s ih =>
    rw [valueCountFrom, ih, tail_cons]
    cases s with
    | nil => simp
    | cons b s =>
      by_cases hb : b = ';'
      · subst hb
        simp
        omega
      · simp [hb]

theorem getValueCount_eq_iff (s : Str) : getValueCount s = getNums s ';' ↔ s.head? ≠ some ';' := by
  rw [getValueCount, valueCountFrom_eq, getNums]
  cases s with
  | nil => simp
  | cons c s =>
    by_cases hc : c = ';'
    · subst hc
      simp
    · simp [hc]

/-- `strtok` with the delimiter `;`: the token, and what it leaves for the next call. -/
def strtok (s : Str) : Option (Str × Str) :=
  match s.dropWhile (· = ';') with
  | [] => none
  | c :: s => some ((c :: s).takeWhile (· ≠ ';'), ((c :: s).dropWhile (· ≠ ';')).tail)

def getNthValue : Nat → Str → Str
  | 0, values => ((strtok values).map Prod.fst).getD []
  | index + 1, values =>
    match strtok values with
    | none => []
    | some (_, rest) => getNthValue index rest

/-- The tokens are the items that are not empty. -/
def tokens (s : Str) : List Str := (s.splitOn ';').filter (· ≠ [])

theorem tokens_dropWhile (s : Str) : tokens (s.dropWhile (· = ';')) = tokens s := by
  induction s with
  | nil => rfl
  | cons c s ih =>
    by_cases hc : c = ';'
    · subst hc
      rw [dropWhile_cons_of_pos (by simp), ih, tokens, tokens, splitOn_cons_self]
      rfl
    · rw [dropWhile_cons_of_neg (by simpa using hc)]

theorem strtok_eq (s : Str) :
    tokens s = match strtok s with
      | none => []
      | some (tok, rest) => tok :: tokens rest := by
  rw [← tokens_dropWhile, strtok]
  cases hs : s.dropWhile (· = ';') with
  | nil => rfl
  | cons c t =>
    have hc : c ≠ ';' := by
      have hhead := head?_dropWhile_not (p := (· = ';')) (l := s)
      rw [hs] at hhead
      simpa using hhead
    have htok : (c :: t).takeWhile (· ≠ ';') ≠ [] := by
      rw [takeWhile_cons_of_pos (by simpa using hc)]
      exact cons_ne_nil _ _
    show tokens (c :: t) =
      (c :: t).takeWhile (· ≠ ';') :: tokens ((c :: t).dropWhile (· ≠ ';')).tail
    rw [tokens, splitOn_cut]
    cases hdrop : (c :: t).dropWhile (· ≠ ';') with
    | nil =>
      have hall : (c :: t).takeWhile (· ≠ ';') = c :: t := by
        have hsplit := takeWhile_append_dropWhile (p := (· ≠ ';')) (l := c :: t)
        rwa [hdrop, append_nil] at hsplit
      rw [hall]
      rfl
    | cons b rest =>
      rw [filter_cons_of_pos (by simpa using htok)]
      rfl

theorem getNthValue_eq (index : Nat) (s : Str) : getNthValue index s = (tokens s)[index]?.getD [] := by
  induction index generalizing s with
  | zero =>
    rw [getNthValue, strtok_eq]
    cases strtok s <;> rfl
  | succ n ih =>
    rw [getNthValue, strtok_eq]
    cases strtok s with
    | none => rfl
    | some r => exact ih r.2

theorem getNthValueSafe_whole (i : Nat) (s : Str) (delimit : Char) {len : Nat}
    (hlen : s.length < len) : getNthValueSafe i s delimit len = (s.splitOn delimit)[i]? := by
  rw [getNthValueSafe_eq]
  cases hitem : (s.splitOn delimit)[i]? with
  | none => rfl
  | some item =>
    have hle := length_le_of_mem_splitOn (mem_of_getElem? hitem)
    rw [map_some, take_of_length_le (by omega)]

/-- The functions that read a `;`-separated list agree on a text: the two that count, the indices
    for which the third succeeds, and the items themselves. -/
structure ReadersAgree (s : Str) : Prop where
  count : getValueCount s = getNums s ';'
  succeeds : {i | (getNthValueSafe i s ';' (s.length + 1)).isSome}.ncard = getNums s ';'
  items : ∀ i < getNums s ';', getNthValueSafe i s ';' (s.length + 1) = some (getNthValue i s)

theorem ncard_succeeds (s : Str) (len : Nat) :
    {i | (getNthValueSafe i s ';' len).isSome}.ncard = getNums s ';' := by
  have hset : {i | (getNthValueSafe i s ';' len).isSome} = ↑(Finset.range (getNums s ';')) := by
    ext i
    change (getNthValueSafe i s ';' len).isSome ↔ _
    rw [getNthValueSafe_isSome, Finset.coe_range, Set.mem_Iio]
    rfl
  rw [hset, Set.ncard_coe_finset, Finset.card_range]

theorem getElem_filter_iff (l : List Str) :
    (∀ i < l.length, l[i]? = some ((l.filter (· ≠ []))[i]?.getD [])) ↔
      l.Pairwise fun a b => a = [] → b = [] := by
  induction l with
  | nil => simp
  | cons x l ih =>
    rw [pairwise_cons]
    by_cases hx : x = []
    · subst hx
      rw [filter_cons_of_neg (by simp)]
      constructor
      · intro h
        -- the first token would have to be the empty first item
        have hempty : l.filter (· ≠ []) = [] := by
          have hzero := h 0 (by simp)
          cases hl : l.filter (· ≠ []) with
          | nil => rfl
          | cons y ys =>
            have hy : y ∈ l.filter (· ≠ []) := hl ▸ mem_cons_self
            rw [hl] at hzero
            simp only [getElem?_cons_zero, getD_some, some.injEq] at hzero
            simp [← hzero] at hy
        have hall : ∀ b ∈ l, b = [] := by
          intro b hb
          by_contra hne
          have hmem : b ∈ l.filter (· ≠ []) := mem_filter.mpr ⟨hb, by simpa using hne⟩
          rw [hempty] at hmem
          exact not_mem_nil hmem
        refine ⟨fun b hb _ => hall b hb, ?_⟩
        apply pairwise_of_forall_mem_list
        intro a _ b hb _
        exact hall b hb
      · rintro ⟨hall, -⟩ i hi
        have hempty : l.filter (· ≠ []) = [] := by
          rw [filter_eq_nil_iff]
          intro b hb
          simpa using hall b hb rfl
        rw [hempty]
        cases i with
        | zero => rfl
        | succ i =>
          have hi' : i < l.length := by simpa using hi
          rw [getElem?_cons_succ, getElem?_eq_getElem hi', hall _ (getElem_mem hi') rfl]
          rfl
    · rw [filter_cons_of_pos (by simpa using hx), ← ih]
      constructor
      · intro h
        refine ⟨fun b _ hnil => absurd hnil hx, ?_⟩
        intro i hi
        exact h (i + 1) (by simpa using hi)
      · rintro ⟨-, h⟩ i hi
        cases i with
        | zero => rfl
        | succ i => exact h i (by simpa using hi)

/-- **The readers of a list agree** on exactly those texts that do not start with a delimiter and
    have no empty item in front of one that is not. -/
theorem readers_agree_iff (s : Str) : ReadersAgree s ↔
      s.head? ≠ some ';' ∧ (s.splitOn ';').Pairwise fun a b => a = [] → b = [] := by
  have hitems : (∀ i < getNums s ';',
      getNthValueSafe i s ';' (s.length + 1) = some (getNthValue i s)) ↔
      (s.splitOn ';').Pairwise fun a b => a = [] → b = [] := by
    rw [← getElem_filter_iff, getNums_eq]
    simp only [getNthValueSafe_whole _ _ _ (Nat.lt_succ_self _), getNthValue_eq, tokens]
  rw [← getValueCount_eq_iff, ← hitems]
  constructor
  · intro h
    exact ⟨h.count, h.items⟩
  · rintro ⟨hcount, h⟩
    exact ⟨hcount, ncard_succeeds s _, h⟩

/-- An empty first item: `getValueCount` counts one value too few, and `getNthValue` takes the
    second item for the first. -/
theorem readers_differ_on_empty_item : ¬ ∀ s, ReadersAgree s := by
  intro h
  have hcount := (h ";1".toList).count
  revert hcount
  decide

/-! ## Deleting -/

theorem segments_eq (delimit : Char) (s : Str) :
    ∃ x xs, s.splitOn delimit = x :: xs ∧ segments delimit s = x :: xs.map (delimit :: ·) := by
  induction s with
  | nil => exact ⟨[], [], rfl, rfl⟩
  | cons c s ih =>
    obtain ⟨x, xs, hsplit, hseg⟩ := ih
    by_cases hc : c = delimit
    · subst hc
      refine ⟨[], x :: xs, ?_, ?_⟩
      · rw [splitOn_cons_self, hsplit]
      · rw [segments, hseg]
        exact if_pos rfl
    · refine ⟨c :: x, xs, ?_, ?_⟩
      · rw [splitOn_cons_eq_if_modifyHead, if_neg (by simpa using hc), hsplit]
        rfl
      · rw [segments, hseg]
        exact if_neg hc

variable {index : List Nat}

theorem flatten_wipe (delimit : Char) {i : Nat} (hsorted : index.Pairwise (· < ·))
    (hge : ∀ k ∈ index, i ≤ k) (items : List Str) :
    (wipe i (index.map Int.ofNat) (items.map (delimit :: ·))).flatten =
      (keepFrom (· ∈ index) i items).flatMap (delimit :: ·) := by
  induction items generalizing i index with
  | nil => cases index <;> rfl
  | cons item items ih =>
    cases index with
    | nil =>
      rw [keepFrom_eq_self _ (fun p _ _ => not_mem_nil)]
      exact flatMap_def.symm
    | cons k index =>
      rw [pairwise_cons] at hsorted
      have hgt : ∀ k' ∈ index, k < k' := hsorted.1
      have hk : i ≤ k := hge k mem_cons_self
      rw [map_cons, map_cons, wipe, keepFrom]
      by_cases heq : i = k
      · subst heq
        have hrest : keepFrom (· ∈ i :: index) (i + 1) items = keepFrom (· ∈ index) (i + 1) items := by
          apply keepFrom_congr
          intro p hp _
          rw [mem_cons, or_iff_right (by omega)]
        rw [if_pos (by rfl), if_pos mem_cons_self, flatten_cons, nil_append,
          ih hsorted.2 (fun k' hk' => hgt k' hk'), hrest]
      · have hnot : i ∉ k :: index := by
          intro hmem
          rcases mem_cons.mp hmem with h | h
          · exact heq h
          · have := hgt i h
            omega
        have hint : ¬ (i : Int) = Int.ofNat k := by
          simpa using heq
        have hge' : ∀ k' ∈ k :: index, i + 1 ≤ k' := by
          intro k' hk'
          have h₁ := hge k' hk'
          have h₂ : k' ≠ i := fun h => hnot (h ▸ hk')
          omega
        rw [if_neg hint, if_neg hnot, flatten_cons, flatMap_cons]
        congr 1
        exact ih (pairwise_cons.mpr hsorted) hge'

theorem flatten_wipe_kept (delimit : Char) (hsorted : index.Pairwise (· < ·))
    (hpos : ∀ k ∈ index, 1 ≤ k) (x : Str) (xs : List Str) :
    (wipe 0 (index.map Int.ofNat) (x :: xs.map (delimit :: ·))).flatten =
      x ++ (keepFrom (· ∈ index) 1 xs).flatMap (delimit :: ·) := by
  rw [← flatten_wipe delimit hsorted hpos xs]
  cases index with
  | nil => cases xs <;> rfl
  | cons k index =>
    have hk := hpos k mem_cons_self
    have hint : ¬ ((0 : Nat) : Int) = Int.ofNat k := by
      intro h
      have := Int.ofNat.inj h
      omega
    rw [map_cons, wipe, if_neg hint, flatten_cons]

theorem flatten_wipe_gone (delimit : Char)
    (hsorted : (0 :: index).Pairwise (· < ·)) (x : Str) (xs : List Str) :
    (wipe 0 ((0 :: index).map Int.ofNat) (x :: xs.map (delimit :: ·))).flatten =
      (keepFrom (· ∈ 0 :: index) 0 (x :: xs)).flatMap (delimit :: ·) := by
  have hpos : ∀ k ∈ index, 1 ≤ k := fun k hk => (pairwise_cons.mp hsorted).1 k hk
  have hkeep : keepFrom (· ∈ 0 :: index) 0 (x :: xs) = keepFrom (· ∈ index) 1 xs := by
    rw [keepFrom, if_pos mem_cons_self]
    apply keepFrom_congr
    intro p hp _
    rw [mem_cons, or_iff_right (by omega)]
  rw [hkeep, map_cons, wipe, if_pos (by rfl), flatten_cons, nil_append]
  exact flatten_wipe delimit (pairwise_cons.mp hsorted).2 hpos xs

theorem eq_zero_cons_of_mem (hsorted : index.Pairwise (· < ·))
    (h : 0 ∈ index) : ∃ rest, index = 0 :: rest := by
  cases index with
  | nil => cases h
  | cons k rest =>
    rcases mem_cons.mp h with rfl | hmem
    · exact ⟨rest, rfl⟩
    · exact absurd ((pairwise_cons.mp hsorted).1 0 hmem) (Nat.not_lt_zero k)

theorem deleteNthValueMulti_eq (delimit : Char) (hsorted : index.Pairwise (· < ·)) (s : Str) :
    deleteNthValueMulti (index.map Int.ofNat) s delimit =
      let kept := keepFrom (· ∈ index) 0 (s.splitOn delimit)
      if 0 ∈ index ∧ kept ≠ [] ∧ delimit ≠ ';' then delimit :: [delimit].intercalate kept
      else [delimit].intercalate kept := by
  obtain ⟨x, xs, hsplit, hseg⟩ := segments_eq delimit s
  rw [deleteNthValueMulti, hseg, hsplit]
  by_cases hzero : 0 ∈ index
  · obtain ⟨index, rfl⟩ := eq_zero_cons_of_mem hsorted hzero
    simp only [flatten_wipe_gone delimit hsorted x xs]
    cases hkept : keepFrom (· ∈ 0 :: index) 0 (x :: xs) with
    | nil => simp
    | cons y ys =>
      have hxs : xs ≠ [] := by
        rintro rfl
        rw [keepFrom, if_pos mem_cons_self] at hkept
        cases hkept
      have hlen : 1 < (x :: xs.map (delimit :: ·)).length := by
        simpa using length_pos_iff.mpr hxs
      rw [if_pos ⟨rfl, hlen⟩, flatMap_cons, cons_append, ← intercalate_cons]
      by_cases hd : delimit = ';'
      · subst hd
        simp
      · -- only a `;` that comes first is dropped
        rw [if_pos ⟨mem_cons_self, cons_ne_nil y ys, hd⟩]
        split
        · rename_i h
          exact absurd (List.cons.inj h).1 hd
        · rfl
  · have hpos : ∀ k ∈ index, 1 ≤ k := fun k hk =>
      one_le_iff_ne_zero.mpr fun heq => hzero (heq ▸ hk)
    have hhead : ¬ ((index.map Int.ofNat).head? = some 0 ∧
        1 < (x :: xs.map (delimit :: ·)).length) := by
      rintro ⟨h, -⟩
      obtain ⟨k, hk, hkzero⟩ := mem_map.mp (mem_of_head? h)
      exact hzero (Int.ofNat.inj hkzero ▸ hk)
    simp only [flatten_wipe_kept delimit hsorted hpos x xs]
    rw [if_neg hhead, if_neg (fun h => hzero h.1), keepFrom, if_neg hzero, intercalate_cons]

theorem forall_mem_iff_length (hsorted : index.Pairwise (· < ·)) {n : Nat}
    (hvalid : ∀ k ∈ index, k < n) : (∀ p < n, p ∈ index) ↔ index.length = n := by
  have hcard : index.toFinset.card = index.length :=
    toFinset_card_of_nodup (hsorted.imp Nat.ne_of_lt)
  have hsub : index.toFinset ⊆ Finset.range n := by
    intro k hk
    exact Finset.mem_range.mpr (hvalid k (mem_toFinset.mp hk))
  constructor
  · intro hall
    have hsup : Finset.range n ⊆ index.toFinset := by
      intro p hp
      exact mem_toFinset.mpr (hall p (Finset.mem_range.mp hp))
    rw [← hcard, hsub.antisymm hsup, Finset.card_range]
  · intro hlen p hp
    have heq : index.toFinset = Finset.range n :=
      Finset.eq_of_subset_of_card_le hsub (by rw [hcard, hlen, Finset.card_range])
    exact mem_toFinset.mp (heq ▸ Finset.mem_range.mpr hp)

/-- **Deletion from a list**: the items that strictly increasing valid numbers name, and no other,
    exactly if the delimiter is `;`, or the first item stays, or no item stays. -/
theorem delete_is_list_deletion_iff (delimit : Char) (s : Str) (index : List Nat)
    (hsorted : index.Pairwise (· < ·)) (hvalid : ∀ k ∈ index, k < (s.splitOn delimit).length) :
    deleteNthValueMulti (index.map Int.ofNat) s delimit =
        [delimit].intercalate (keepFrom (· ∈ index) 0 (s.splitOn delimit)) ↔
      delimit = ';' ∨ 0 ∉ index ∨ index.length = (s.splitOn delimit).length := by
  have hnil : keepFrom (· ∈ index) 0 (s.splitOn delimit) = [] ↔
      index.length = (s.splitOn delimit).length := by
    rw [keepFrom_eq_nil, ← forall_mem_iff_length hsorted hvalid]
    simp
  rw [← hnil, deleteNthValueMulti_eq delimit hsorted]
  dsimp only
  split_ifs with hstray
  · refine iff_of_false ?_ ?_
    · intro h
      simpa using congrArg List.length h
    · rintro (h | h | h)
      · exact hstray.2.2 h
      · exact h hstray.1
      · exact hstray.2.1 h
  · refine iff_of_true rfl ?_
    by_contra hnone
    simp only [not_or, not_not] at hnone
    exact hstray ⟨hnone.2.1, hnone.2.2, hnone.1⟩

theorem delete_is_list_deletion_first_and_last :
    deleteNthValueMulti [0, 2] "a;b;c".toList ';' = "b".toList := by
  have h := (delete_is_list_deletion_iff ';' "a;b;c".toList [0, 2] (by decide) (by decide)).mpr
    (.inl rfl)
  exact h.trans (by decide)

/-- With another delimiter the one behind the first item stays. -/
theorem delete_leaves_comma :
    ¬ ∀ (delimit : Char) (s : Str) (index : List Nat), index ≠ [] → index.Pairwise (· < ·) →
      (∀ k ∈ index, k < (s.splitOn delimit).length) →
      deleteNthValueMulti (index.map Int.ofNat) s delimit =
        [delimit].intercalate (keepFrom (· ∈ index) 0 (s.splitOn delimit)) := by
  intro h
  have hab := h ',' "a,b".toList [0] (by decide) (by decide) (by decide)
  revert hab
  decide

/-! ## Setting one item -/

/-- The loop of `setNthValue` that copies the items to the rows of `buf`, with `n` rows to go.  A
    row has 256 bytes.  `none` stands for a copy that leaves its row or leaves no room for the NUL;
    behind the last row there is none for the item that `strcpy` copies. -/
def copyValues : Nat → Str → Option (List Str)
  | 0, _ => none
  | n + 1, p =>
    match p.dropWhile (· ≠ ';') with
    | [] => if p.length < 256 then some [p] else none
    | _ :: rest =>
      let item := p.takeWhile (· ≠ ';')
      if item.length < 256 then (copyValues n rest).map (item :: ·) else none

/-- `strcat` to `ret`, which has 2048 bytes. -/
def catAll (ret : Str) : List Str → Option Str
  | [] => some ret
  | s :: ss => if (ret ++ s).length < 2048 then catAll (ret ++ s) ss else none

def setNthValue (index : Nat) (oldValues newValue : Str) : Option Str := do
  let rows ← copyValues 8 oldValues
  if index < 8 ∧ newValue.length < 256 then
    let buf := fun k => if k = index then newValue else rows.getD k []
    let last := max (rows.length - 1) index
    catAll [] (buf 0 :: (range last).flatMap fun k => [";".toList, buf (k + 1)])
  else none

theorem copyValues_eq_some {n : Nat} {p : Str} {rows : List Str} : copyValues n p = some rows ↔
      rows = p.splitOn ';' ∧ rows.length ≤ n ∧ ∀ item ∈ rows, item.length < 256 := by
  induction n generalizing p rows with
  | zero =>
    refine iff_of_false (by simp [copyValues]) ?_
    rintro ⟨rfl, hlen, -⟩
    exact splitOn_ne_nil ';' p (length_eq_zero_iff.mp (le_zero.mp hlen))
  | succ n ih =>
    rw [copyValues, splitOn_cut]
    cases p.dropWhile (· ≠ ';') with
    | nil =>
      dsimp only
      split_ifs with hp
      · constructor
        · intro h
          obtain rfl := some.inj h
          exact ⟨rfl, by simp, by simpa using hp⟩
        · rintro ⟨rfl, -, -⟩
          rfl
      · refine iff_of_false (by simp) ?_
        rintro ⟨rfl, -, hall⟩
        exact hp (hall p (by simp))
    | cons c rest =>
      dsimp only
      split_ifs with hp
      · rw [map_eq_some_iff]
        constructor
        · rintro ⟨rows', h, rfl⟩
          obtain ⟨rfl, hlen, hall⟩ := ih.mp h
          exact ⟨rfl, by simpa using hlen, forall_mem_cons.mpr ⟨hp, hall⟩⟩
        · rintro ⟨rfl, hlen, hall⟩
          exact ⟨_, ih.mpr ⟨rfl, by simpa using hlen, (forall_mem_cons.mp hall).2⟩, rfl⟩
      · refine iff_of_false (by simp) ?_
        rintro ⟨rfl, -, hall⟩
        exact hp (hall _ mem_cons_self)

theorem catAll_eq (ret : Str) (parts : List Str) (h : (ret ++ parts.flatten).length < 2048) :
    catAll ret parts = some (ret ++ parts.flatten) := by
  induction parts generalizing ret with
  | nil => simp [catAll]
  | cons s ss ih =>
    rw [flatten_cons, ← append_assoc] at h ⊢
    have hs : (ret ++ s).length < 2048 := by
      rw [length_append] at h
      omega
    rw [catAll, if_pos hs, ih _ h]

theorem flatten_rows (buf : Nat → Str) (last : Nat) :
    (buf 0 :: (range last).flatMap fun k => [";".toList, buf (k + 1)]).flatten =
      [';'].intercalate ((range (last + 1)).map buf) := by
  rw [range_succ_eq_map, map_cons, intercalate_cons, flatten_cons]
  congr 1
  generalize range last = l
  induction l with
  | nil => rfl
  | cons k l ih =>
    rw [flatMap_cons, flatten_append, ih]
    simp

theorem setNthValue_eq {i : Nat} {old v : Str} (hi : i < 8) (hv : v.length < 256)
    (hnum : (old.splitOn ';').length ≤ 8) (hold : ∀ item ∈ old.splitOn ';', item.length < 256) :
    setNthValue i old v = some ([';'].intercalate
      ((range (max ((old.splitOn ';').length - 1) i + 1)).map
        fun k => if k = i then v else (old.splitOn ';').getD k [])) := by
  set items := old.splitOn ';' with hitems
  set buf : Nat → Str := fun k => if k = i then v else items.getD k [] with hbuf
  set last := max (items.length - 1) i with hlast
  have hrow : ∀ k, (buf k).length + 1 ≤ 256 := by
    intro k
    by_cases hk : k = i
    · simp [hbuf, hk]
      omega
    · simp only [hbuf, if_neg hk, getD_eq_getElem?_getD]
      cases hget : items[k]? with
      | none => simp
      | some item => exact hold item (mem_of_getElem? hget)
  have hlen : ([';'].intercalate ((range (last + 1)).map buf)).length < 2048 := by
    have hne : (range (last + 1)).map buf ≠ [] := by simp
    have hsum := length_intercalate ';' hne
    have hle := sum_le_card_nsmul (((range (last + 1)).map buf).map (·.length + 1)) 256 (by
      intro n hn
      simp only [List.mem_map] at hn
      obtain ⟨item, ⟨k, -, rfl⟩, rfl⟩ := hn
      exact hrow k)
    simp only [length_map, length_range, smul_eq_mul] at hle
    have hlast7 : last ≤ 7 := max_le (by omega) (by omega)
    have htotal := hsum.trans_le hle
    omega
  have hcopy : copyValues 8 old = some items := copyValues_eq_some.mpr ⟨rfl, hnum, hold⟩
  have hcat := catAll_eq [] (buf 0 :: (range last).flatMap fun k => [";".toList, buf (k + 1)])
    (by rw [nil_append, flatten_rows]; exact hlen)
  rw [nil_append, flatten_rows] at hcat
  rw [setNthValue, hcopy, bind_eq_bind, bind_some, if_pos ⟨hi, hv⟩]
  exact hcat

/-- What a list reads as after item `i` was set to `v`. -/
structure SetLaws (i : Nat) (old v ret : Str) : Prop where
  set : getNthValueSafe i ret ';' 256 = some v
  others : ∀ j < getNums old ';', j ≠ i →
    getNthValueSafe j ret ';' 256 = getNthValueSafe j old ';' 256
  gap : ∀ j, getNums old ';' ≤ j → j < i → getNthValueSafe j ret ';' 256 = some []

theorem setLaws_of_fits {i : Nat} {old v : Str} (hi : i < 8) (hv : v.length ≤ 255) (hsemi : ';' ∉ v)
    (hnum : getNums old ';' ≤ 8) (hold : ∀ item ∈ old.splitOn ';', item.length ≤ 255) :
    ∃ ret, setNthValue i old v = some ret ∧ SetLaws i old v ret := by
  rw [getNums_eq] at hnum
  refine ⟨_, setNthValue_eq hi (by omega) hnum (fun item h => lt_succ_of_le (hold item h)), ?_⟩
  set items := old.splitOn ';' with hitems
  set buf : Nat → Str := fun k => if k = i then v else items.getD k [] with hbuf
  set last := max (items.length - 1) i with hlast
  have hrows : ∀ row ∈ (range (last + 1)).map buf, ';' ∉ row := by
    intro row hrow
    obtain ⟨k, -, rfl⟩ := mem_map.mp hrow
    by_cases hk : k = i
    · simpa [hbuf, hk] using hsemi
    · simp only [hbuf, if_neg hk, getD_eq_getElem?_getD]
      cases hget : items[k]? with
      | none => simp
      | some item => exact not_mem_of_mem_splitOn ';' (mem_of_getElem? hget)
  have hsplit : ([';'].intercalate ((range (last + 1)).map buf)).splitOn ';' =
      (range (last + 1)).map buf := splitOn_intercalate ';' hrows (by simp)
  have hread : ∀ j ≤ last, getNthValueSafe j ([';'].intercalate ((range (last + 1)).map buf))
      ';' 256 = some ((buf j).take 255) := by
    intro j hj
    rw [getNthValueSafe_eq, hsplit]
    simp [lt_succ_of_le hj]
  constructor
  case set =>
    rw [hread i (le_max_right _ _)]
    simp [hbuf, take_of_length_le hv]
  case others =>
    intro j hj hne
    rw [getNums_eq, ← hitems] at hj
    have hle : j ≤ last := le_trans (by omega) (le_max_left (items.length - 1) i)
    rw [hread j hle, getNthValueSafe_eq, ← hitems]
    simp [hbuf, hne, hj]
  case gap =>
    intro j hge hlt
    rw [getNums_eq] at hge
    rw [hread j (le_trans hlt.le (le_max_right _ _))]
    have hnone : items[j]? = none := getElem?_eq_none hge
    simp [hbuf, hlt.ne, hnone]

/-- **Setting one item of a list** of at most 8 items keeps the laws of reading and writing, and the
    buffers; with more than 8 items the call leaves its buffers. -/
theorem setNthValue_laws_iff (i : Nat) (old v : Str) (hi : i < 8) (hv : v.length ≤ 255)
    (hsemi : ';' ∉ v) (hold : getNums old ';' ≤ 8 → ∀ item ∈ old.splitOn ';', item.length ≤ 255) :
    ((getNums old ';' ≤ 8 → ∃ ret, setNthValue i old v = some ret ∧ SetLaws i old v ret) ∧
      (8 < getNums old ';' → (setNthValue i old v).isSome)) ↔ getNums old ';' ≤ 8 := by
  constructor
  · rintro ⟨-, hmany⟩
    by_contra hnum
    -- no row is left for the ninth item
    have hnone : copyValues 8 old = none := by
      by_contra hsome
      obtain ⟨rows, hrows⟩ := Option.ne_none_iff_exists'.mp hsome
      obtain ⟨rfl, hlen, -⟩ := copyValues_eq_some.mp hrows
      rw [← getNums_eq] at hlen
      exact hnum hlen
    have hsome := hmany (by omega)
    rw [setNthValue, hnone] at hsome
    cases hsome
  · intro hnum
    exact ⟨fun _ => setLaws_of_fits hi hv hsemi hnum (hold hnum), fun hmany => absurd hnum (by omega)⟩

theorem setNthValue_laws_gap :
    ∃ ret, setNthValue 3 "a;b".toList "x".toList = some ret ∧ SetLaws 3 "a;b".toList "x".toList ret :=
  ((setNthValue_laws_iff 3 "a;b".toList "x".toList (by decide) (by decide) (by decide)
    (by decide)).mpr (by decide)).1 (by decide)

/-- The ninth item is copied behind the last row. -/
theorem setNthValue_leaves_buffers :
    ¬ ∀ (i : Nat) (old v : Str), i < 8 → v.length ≤ 255 → ';' ∉ v → 8 < getNums old ';' →
      (setNthValue i old v).isSome := by
  intro h
  have hsome := h 0 "1;2;3;4;5;6;7;8;9".toList "x".toList (by decide) (by decide) (by decide)
    (by decide)
  revert hsome
  decide

end RalinkSdk.Firewall
