import RalinkSdk.Firewall.Lists
import RalinkSdk.Firewall.Agreement
import RalinkSdk.Firewall.IpPortFilter

/-!
# Firewall settings of the web server: deleting rules

The handlers that delete rules fill the front of `deleArray` with the numbers of the chosen rules
and then call `deleteNthValueMulti` with the number of all rules as the length of the array.  When
the walk has found the last chosen rule it goes on with what `malloc` left behind it.
-/

namespace RalinkSdk.Firewall

open Lib List

/-! ## What an array names -/

/-- The front of an array that the walk finds in a list of `n` items from item `i` on. -/
def named (i n : Nat) : List Int → List Nat
  | [] => []
  | k :: index =>
    if (i : Int) ≤ k ∧ k < n then k.toNat :: named (k.toNat + 1) n index else []

theorem mem_named {i n p : Nat} {index : List Int} (h : p ∈ named i n index) : i ≤ p ∧ p < n := by
  induction index generalizing i with
  | nil => cases h
  | cons k index ih =>
    rw [named] at h
    split_ifs at h with hk
    · rcases mem_cons.mp h with rfl | hmem
      · omega
      · have := ih hmem
        omega
    · cases h

theorem named_pairwise (i n : Nat) (index : List Int) : (named i n index).Pairwise (· < ·) := by
  induction index generalizing i with
  | nil => exact List.Pairwise.nil
  | cons k index ih =>
    rw [named]
    split_ifs
    · exact pairwise_cons.mpr ⟨fun p hp => (mem_named hp).1, ih _⟩
    · exact List.Pairwise.nil

theorem named_succ {i n : Nat} {k : Int} (h : (i : Int) ≠ k) (index : List Int) :
    named (i + 1) n (k :: index) = named i n (k :: index) := by
  have hiff : ((i + 1 : Nat) : Int) ≤ k ∧ k < n ↔ (i : Int) ≤ k ∧ k < n := by
    push_cast
    omega
  simp only [named, hiff]

theorem wipe_of_head {i : Nat} {index : List Int} (h : index.head? ≠ some (i : Int)) (seg : Str)
    (segs : List Str) : wipe i index (seg :: segs) = seg :: wipe (i + 1) index segs := by
  cases index with
  | nil => simp [wipe]
  | cons k index =>
    have hk : ¬ (i : Int) = k := fun heq => h (by rw [heq]; rfl)
    rw [wipe, if_neg hk]

theorem wipe_nil (i : Nat) (index : List Int) : wipe i index [] = [] := by
  cases index <;> rfl

theorem wipe_named (i : Nat) (index : List Int) (segs : List Str) :
    wipe i ((named i (i + segs.length) index).map Int.ofNat) segs = wipe i index segs := by
  induction segs generalizing i index with
  | nil => rw [wipe_nil, wipe_nil]
  | cons seg segs ih =>
    cases index with
    | nil => rfl
    | cons k index =>
      have hlen : i + (seg :: segs).length = i + 1 + segs.length := by
        rw [length_cons]
        omega
      rw [hlen]
      by_cases hk : (i : Int) = k
      · subst hk
        have hin : (i : Int) ≤ i ∧ (i : Int) < (i + 1 + segs.length : Nat) := by
          push_cast
          omega
        rw [named, if_pos hin, Int.toNat_natCast, map_cons, wipe, wipe, if_pos rfl,
          if_pos (by rfl), ih]
      · have hhead : ((named (i + 1) (i + 1 + segs.length) (k :: index)).map Int.ofNat).head? ≠
            some (i : Int) := by
          intro heq
          rw [head?_map, Option.map_eq_some_iff] at heq
          obtain ⟨p, hp, hpi⟩ := heq
          have hle := (mem_named (mem_of_head? hp)).1
          have : p = i := Int.ofNat.inj hpi
          omega
        rw [← named_succ hk, wipe_of_head hhead, ih, wipe, if_neg hk]

theorem length_segments (delimit : Char) (s : Str) :
    (segments delimit s).length = (s.splitOn delimit).length := by
  obtain ⟨x, xs, hsplit, hseg⟩ := segments_eq delimit s
  rw [hsplit, hseg, length_cons, length_cons, length_map]

theorem deleteNthValueMulti_named (index : List Int) (s : Str) (delimit : Char) :
    deleteNthValueMulti ((named 0 (s.splitOn delimit).length index).map Int.ofNat) s delimit =
      deleteNthValueMulti index s delimit := by
  have hwipe := wipe_named 0 index (segments delimit s)
  rw [Nat.zero_add, length_segments] at hwipe
  have hpos : 0 < (s.splitOn delimit).length :=
    length_pos_iff.mpr (splitOn_ne_nil delimit s)
  have hhead : ((named 0 (s.splitOn delimit).length index).map Int.ofNat).head? = some 0 ↔
      index.head? = some 0 := by
    cases index with
    | nil => rfl
    | cons k index =>
      rw [named]
      split_ifs with hk
      · have hcast : Int.ofNat k.toNat = k := Int.toNat_of_nonneg (by omega)
        rw [map_cons, head?_cons, head?_cons, hcast]
      · constructor
        · intro h
          cases h
        · intro h
          have hzero : k = 0 := by simpa using h
          exact absurd ⟨by omega, by omega⟩ hk
  simp only [deleteNthValueMulti, hwipe, hhead]

theorem named_append {i n : Nat} {l : List Nat} (hsorted : l.Pairwise (· < ·))
    (hrange : ∀ k ∈ l, i ≤ k ∧ k < n) (rest : List Int) : named i n (l.map Int.ofNat ++ rest) =
      l ++ named ((l.getLast?.map (· + 1)).getD i) n rest := by
  induction l generalizing i with
  | nil => rfl
  | cons k l ih =>
    rw [pairwise_cons] at hsorted
    have hk := hrange k mem_cons_self
    have hin : (i : Int) ≤ Int.ofNat k ∧ Int.ofNat k < n :=
      ⟨Int.ofNat_le.mpr hk.1, Int.ofNat_lt.mpr hk.2⟩
    have hrest : ∀ k' ∈ l, k + 1 ≤ k' ∧ k' < n := fun k' hk' =>
      ⟨hsorted.1 k' hk', (hrange k' (mem_cons_of_mem k hk')).2⟩
    have hlast : ((k :: l).getLast?.map (· + 1)).getD i = (l.getLast?.map (· + 1)).getD (k + 1) := by
      cases l with
      | nil => rfl
      | cons k' l => rw [getLast?_cons_cons]; simp [getLast?_cons]
    rw [map_cons, cons_append, named, if_pos hin, hlast]
    exact congrArg (k :: ·) (ih hsorted.2 hrest)

/-! ## The chosen rules -/

variable (form : DeleteForm) (rules : Str)

/-- The rules that a form leaves. -/
def keptRules : List Str := keepFrom (fun i => form.delRule i = true) 0 (rules.splitOn ';')

def chosen : List Nat := (range (getRuleNums rules)).filter form.delRule

/-- What the walk deletes behind the last chosen rule. -/
def extra : List Nat :=
  named (((chosen form rules).getLast?.map (· + 1)).getD 0) (getRuleNums rules)
    ((range (getRuleNums rules - (chosen form rules).length)).map form.junk)

variable {form rules}

theorem getRuleNums_eq (rules : Str) : getRuleNums rules = (rules.splitOn ';').length :=
  getNums_eq rules ';'

theorem mem_chosen {p : Nat} :
    p ∈ chosen form rules ↔ p < getRuleNums rules ∧ form.delRule p = true := by
  rw [chosen, mem_filter, mem_range]

theorem chosen_pairwise : (chosen form rules).Pairwise (· < ·) :=
  List.Pairwise.filter _ pairwise_lt_range

theorem le_last_chosen {last p : Nat} (hlast : (chosen form rules).getLast? = some last)
    (hp : p ∈ chosen form rules) : p ≤ last := by
  obtain ⟨front, hfront⟩ := getLast?_eq_some_iff.mp hlast
  have hsorted := @chosen_pairwise form rules
  rw [hfront] at hsorted hp
  rcases mem_append.mp hp with h | h
  · exact ((pairwise_append.mp hsorted).2.2 p h last (by simp)).le
  · rw [mem_singleton.mp h]

/-- **One deletion**: the chosen rules go, and so do the numbers that stand behind them in the array
    as long as they increase and are in range. -/
theorem deletedRules_eq (hrules : rules ≠ []) (hmalloc : form.malloc = true)
    (hchosen : chosen form rules ≠ []) : deletedRules form rules = some ([';'].intercalate
      (keepFrom (· ∈ chosen form rules ++ extra form rules) 0 (rules.splitOn ';'))) := by
  have hany : (range (getRuleNums rules)).any form.delRule ≠ false := by
    obtain ⟨p, hp⟩ := exists_mem_of_ne_nil _ hchosen
    have hp' := mem_chosen.mp hp
    rw [Bool.ne_false_iff, List.any_eq_true]
    exact ⟨p, mem_range.mpr hp'.1, hp'.2⟩
  have harray : named 0 (rules.splitOn ';').length (deleArray form (getRuleNums rules)) =
      chosen form rules ++ extra form rules := by
    rw [← getRuleNums_eq, deleArray]
    exact named_append chosen_pairwise (fun p hp => ⟨Nat.zero_le p, (mem_chosen.mp hp).1⟩) _
  have hsorted : (chosen form rules ++ extra form rules).Pairwise (· < ·) :=
    harray ▸ named_pairwise 0 _ _
  rw [deletedRules, if_neg hrules, if_neg (by simp [hmalloc]), if_neg hany,
    ← deleteNthValueMulti_named, harray, deleteNthValueMulti_eq ';' hsorted]
  simp

theorem extra_eq_nil (hchosen : chosen form rules ≠ []) : extra form rules = [] ↔
      (∃ i < getRuleNums rules, form.delRule i = true ∧ form.junk 0 ≤ i) ∨
        (getRuleNums rules : Int) ≤ form.junk 0 := by
  obtain ⟨last, hlast⟩ := Option.ne_none_iff_exists'.mp (mt getLast?_eq_none_iff.mp hchosen)
  have hmem : last ∈ chosen form rules := mem_of_getLast? hlast
  have hbelow : (∃ i < getRuleNums rules, form.delRule i = true ∧ form.junk 0 ≤ i) ↔
      form.junk 0 ≤ last := by
    constructor
    · rintro ⟨i, hi, hdel, hle⟩
      have := le_last_chosen hlast (mem_chosen.mpr ⟨hi, hdel⟩)
      omega
    · intro hle
      exact ⟨last, (mem_chosen.mp hmem).1, (mem_chosen.mp hmem).2, hle⟩
  rw [hbelow, extra, hlast, Option.map_some, Option.getD_some]
  have hlen : (chosen form rules).length ≤ getRuleNums rules := by
    have := length_filter_le form.delRule (range (getRuleNums rules))
    rwa [length_range] at this
  cases hfree : getRuleNums rules - (chosen form rules).length with
  | zero =>
    -- every rule is chosen, so the last chosen one is the last of all
    have hall : (range (getRuleNums rules)).filter form.delRule =
        range (getRuleNums rules) := by
      apply filter_sublist.eq_of_length
      rw [length_range]
      exact hlen.antisymm (Nat.le_of_sub_eq_zero hfree)
    have hend : getRuleNums rules - 1 ∈ chosen form rules := by
      have := (mem_chosen.mp hmem).1
      rw [chosen, hall, mem_range]
      omega
    have := le_last_chosen hlast hend
    refine iff_of_true rfl ?_
    omega
  | succ k =>
    rw [range_succ_eq_map, map_cons, named]
    split_ifs with hin
    · refine iff_of_false not_false ?_
      push_cast at hin
      omega
    · refine iff_of_true rfl ?_
      push_cast at hin
      omega

/-- Where the handlers delete the chosen rules and no other: there is no list, nothing is chosen, or
    the memory behind the numbers in the array does not go on with the number of a later rule.  If
    all that is left is one empty rule its deletion is not seen. -/
def DeletesChosen (form : DeleteForm) (rules : Str) : Prop :=
  rules = [] ∨ (∀ i < getRuleNums rules, form.delRule i = false) ∨
    (form.malloc = true ∧
      ((∃ i < getRuleNums rules, form.delRule i = true ∧ form.junk 0 ≤ i) ∨
        (getRuleNums rules : Int) ≤ form.junk 0 ∨ keptRules form rules = [[]]))

theorem keptRules_eq :
    keptRules form rules = keepFrom (· ∈ chosen form rules) 0 (rules.splitOn ';') := by
  apply keepFrom_congr
  intro p _ hlt
  rw [Nat.zero_add, ← getRuleNums_eq] at hlt
  rw [mem_chosen, and_iff_right hlt]

theorem intercalate_kept_iff {gone gone' : Nat → Prop} [DecidablePred gone] [DecidablePred gone']
    (h : ∀ p, gone p → gone' p) {items : List Str} {p : Nat} (hlt : p < items.length)
    (hp : gone' p) (hnot : ¬ gone p) :
    [';'].intercalate (keepFrom gone' 0 items) = [';'].intercalate (keepFrom gone 0 items) ↔
      keepFrom gone 0 items = [[]] := by
  have hsub := keepFrom_sublist gone h 0 items
  have hne : keepFrom gone' 0 items ≠ keepFrom gone 0 items :=
    keepFrom_ne gone h (Nat.zero_le p) (by omega) hp hnot
  rw [intercalate_eq_of_sublist ';' hsub hne]
  refine ⟨fun h => h.2, fun hone => ⟨?_, hone⟩⟩
  rw [hone] at hsub hne
  exact (sublist_singleton.mp hsub).resolve_right hne

theorem keptRules_nil (form : DeleteForm) : keptRules form [] = [] ∨ keptRules form [] = [[]] := by
  simp only [keptRules, splitOn_nil, keepFrom]
  split_ifs <;> simp

theorem chosen_eq_nil : chosen form rules = [] ↔ ∀ i < getRuleNums rules, form.delRule i = false := by
  simp [chosen, filter_eq_nil_iff]

theorem deletedRules_of_unchosen (h : ∀ i < getRuleNums rules, form.delRule i = false) :
    deletedRules form rules = none ∧ keptRules form rules = rules.splitOn ';' := by
  constructor
  · have hany : (range (getRuleNums rules)).any form.delRule = false := by
      rw [List.any_eq_false]
      intro i hi
      simp [h i (mem_range.mp hi)]
    rw [deletedRules, hany]
    simp
  · apply keepFrom_eq_self
    intro p _ hlt
    rw [Nat.zero_add, ← getRuleNums_eq] at hlt
    simp [h p hlt]

theorem deletedRules_of_no_memory (h : form.malloc ≠ true) : deletedRules form rules = none := by
  rw [deletedRules]
  split_ifs with hrules hmalloc
  · rfl
  · rfl
  · exact absurd (by simpa using h) hmalloc
  · exact absurd (by simpa using h) hmalloc

theorem extra_not_chosen (hchosen : chosen form rules ≠ []) {p : Nat} (hp : p ∈ extra form rules) :
    p < getRuleNums rules ∧ p ∉ chosen form rules := by
  obtain ⟨last, hlast⟩ := Option.ne_none_iff_exists'.mp (mt getLast?_eq_none_iff.mp hchosen)
  have hrange := mem_named hp
  rw [hlast, Option.map_some, Option.getD_some] at hrange
  refine ⟨hrange.2, fun hmem => ?_⟩
  have hle := le_last_chosen hlast hmem
  omega

theorem deletedRules_iff_of_chosen (hrules : rules ≠ []) (hmalloc : form.malloc = true)
    (hchosen : chosen form rules ≠ []) :
    (deletedRules form rules).getD rules = [';'].intercalate (keptRules form rules) ↔
      extra form rules = [] ∨ keptRules form rules = [[]] := by
  rw [deletedRules_eq hrules hmalloc hchosen, Option.getD_some, keptRules_eq]
  by_cases hextra : extra form rules = []
  · simp [hextra]
  · obtain ⟨p, hp⟩ := exists_mem_of_ne_nil _ hextra
    obtain ⟨hlt, hnew⟩ := extra_not_chosen hchosen hp
    rw [or_iff_right hextra]
    apply intercalate_kept_iff
    · exact fun k hk => mem_append_left _ hk
    · rw [← getRuleNums_eq]
      exact hlt
    · exact mem_append_right _ hp
    · exact hnew

theorem intercalate_keptRules_ne (hrules : rules ≠ []) (hchosen : chosen form rules ≠ []) :
    rules ≠ [';'].intercalate (keptRules form rules) := by
  obtain ⟨q, hq⟩ := exists_mem_of_ne_nil _ hchosen
  have hall : keepFrom (fun _ => False) 0 (rules.splitOn ';') = rules.splitOn ';' :=
    keepFrom_eq_self _ fun _ _ _ => not_false
  have hiff : [';'].intercalate (keepFrom (· ∈ chosen form rules) 0 (rules.splitOn ';')) =
      [';'].intercalate (keepFrom (fun _ => False) 0 (rules.splitOn ';')) ↔
        keepFrom (fun _ => False) 0 (rules.splitOn ';') = [[]] :=
    intercalate_kept_iff (fun p => False.elim) (getRuleNums_eq rules ▸ (mem_chosen.mp hq).1) hq
      not_false
  rw [hall, intercalate_splitOn, ← keptRules_eq] at hiff
  intro h
  exact hrules ((splitOn_eq_singleton_nil ';').mp (hiff.mp h.symm))

theorem deletedRules_iff :
    (deletedRules form rules).getD rules = [';'].intercalate (keptRules form rules) ↔
      DeletesChosen form rules := by
  by_cases hrules : rules = []
  · subst hrules
    refine iff_of_true ?_ (.inl rfl)
    rw [(intercalate_eq_nil ';').mpr (keptRules_nil form)]
    rfl
  by_cases hchosen : chosen form rules = []
  · have hnone := chosen_eq_nil.mp hchosen
    obtain ⟨hsame, hkept⟩ := deletedRules_of_unchosen hnone
    refine iff_of_true ?_ (.inr (.inl hnone))
    rw [hsame, hkept, intercalate_splitOn]
    rfl
  · rw [DeletesChosen, or_iff_right hrules, or_iff_right (mt chosen_eq_nil.mpr hchosen)]
    by_cases hmalloc : form.malloc = true
    · rw [and_iff_right hmalloc, deletedRules_iff_of_chosen hrules hmalloc hchosen, ← or_assoc,
        ← extra_eq_nil hchosen]
    · -- nothing is stored although rules were chosen
      rw [deletedRules_of_no_memory hmalloc]
      exact iff_of_false (intercalate_keptRules_ne hrules hchosen) fun h => hmalloc h.1

/-! ## The handlers -/

theorem portForwardDelete_nvram (env : Env) (form : DeleteForm) (s : Box) :
    (portForwardDelete env form s).nvram .portForwardRules =
      (deletedRules form (s.nvram .portForwardRules)).getD (s.nvram .portForwardRules) := by
  rw [portForwardDelete]
  cases deletedRules form (s.nvram .portForwardRules) with
  | none => rfl
  | some rules =>
    dsimp only
    split_ifs
    · simp [nvramSet]
    · simp [iptablesPortForwardRun_eq, nvramSet]

theorem websURLFilterDelete_nvram (env : Env) (form : DeleteForm) (s : Box) :
    (websURLFilterDelete env form s).nvram .websURLFilters =
      (deletedRules form (s.nvram .websURLFilters)).getD (s.nvram .websURLFilters) := by
  rw [websURLFilterDelete, websFilterDelete]
  cases deletedRules form (s.nvram .websURLFilters) with
  | none => rfl
  | some filters => simp [iptablesWebsFilterRun_eq, nvramSet]

theorem ipportFilterDelete_rules (gap : Str) (env : Env) (form : DeleteForm) (s : FilterBox) :
    (ipportFilterDelete gap env form s).rules = (deletedRules form s.rules).getD s.rules := by
  rw [ipportFilterDelete]
  cases deletedRules form s.rules with
  | none => rfl
  | some rules => simp [iptablesIPPortFilterRun_rules, iptablesIPPortFilterFlush]

/-- **Deletion**: each handler stores the list without the chosen rules exactly if the memory behind
    the chosen numbers does not name a later rule. -/
theorem deletes_chosen_iff (gap : Str) (env : Env) (form : DeleteForm) (f : FilterBox) (s : Box) :
    ((ipportFilterDelete gap env form f).rules = [';'].intercalate (keptRules form f.rules) ↔
      DeletesChosen form f.rules) ∧
    ((portForwardDelete env form s).nvram .portForwardRules =
        [';'].intercalate (keptRules form (s.nvram .portForwardRules)) ↔
      DeletesChosen form (s.nvram .portForwardRules)) ∧
    ((websURLFilterDelete env form s).nvram .websURLFilters =
        [';'].intercalate (keptRules form (s.nvram .websURLFilters)) ↔
      DeletesChosen form (s.nvram .websURLFilters)) := by
  rw [ipportFilterDelete_rules, portForwardDelete_nvram, websURLFilterDelete_nvram]
  exact ⟨deletedRules_iff, deletedRules_iff, deletedRules_iff⟩

/-- Of the rules `a;b;c` the first is chosen, and the memory behind its number holds a 2. -/
theorem delete_takes_unchosen_rule :
    ¬ ∀ (gap : Str) (env : Env) (form : DeleteForm) (f : FilterBox), form.malloc = true →
      (ipportFilterDelete gap env form f).rules = [';'].intercalate (keptRules form f.rules) := by
  intro h
  have hrules := h [] ⟨[], none, fun _ => true⟩ ⟨(· = 0), true, fun _ => 2⟩
    ⟨"0".toList, "a;b;c".toList, [], [], []⟩ rfl
  rw [ipportFilterDelete_rules] at hrules
  revert hrules
  decide

end RalinkSdk.Firewall
