import RalinkSdk.Firewall.Lists
import RalinkSdk.Firewall.Handlers

/-!
# Firewall settings of the web server: what is stored is read again

A handler prints a record with `snprintf` and the run functions take it apart with
`getNthValueSafe`, first at `;` and then at `,`.
-/

namespace RalinkSdk.Firewall

open Lib List Nat

/-! ## Numbers -/

theorem fmtInt_natCast (n : Nat) : fmtInt n = toDigits 10 n :=
  (String.ofList_eq.mp rfl).symm

theorem isDigit_of_mem_fmtInt {n : Nat} {c : Char} (h : c ∈ fmtInt n) : c.isDigit = true := by
  rw [fmtInt_natCast] at h
  exact isDigit_of_mem_toDigits (by decide) (by decide) h

theorem fmtInt_ne_nil (n : Nat) : fmtInt n ≠ [] := by
  rw [fmtInt_natCast]
  exact toDigits_ne_nil

theorem length_fmtInt_le {n : Nat} (h : n ≤ 65535) : (fmtInt n).length ≤ 5 := by
  rw [fmtInt_natCast, length_toDigits_le_iff (by decide) (by decide)]
  omega

theorem not_mem_fmtInt {n : Nat} {c : Char} (hc : c.isDigit = false) : c ∉ fmtInt n := by
  intro hmem
  rw [isDigit_of_mem_fmtInt hmem] at hc
  cases hc

theorem decimal_toDigits (n : Nat) : decimal (toDigits 10 n) = n := by
  have h := @Nat.ofDigitChars_ten_toDigits n
  rw [ofDigitChars_eq_foldl] at h
  rw [decimal]
  simpa only [Nat.mul_comm] using h

theorem isspace_of_isDigit {c : Char} (hc : c.isDigit = true) : isspace c = false := by
  have hge : 48 ≤ c.toNat := by
    simp only [Char.isDigit, Bool.and_eq_true, decide_eq_true_eq] at hc
    exact hc.1
  have hne : c ≠ ' ' := by
    rintro rfl
    simp at hge
  simp [isspace, hne]
  omega

theorem atoi_digits {s : Str} (hne : s ≠ []) (h : ∀ c ∈ s, c.isDigit = true) :
    atoi s = min (2 ^ 31 - 1) (decimal s : Int) := by
  obtain ⟨c, s, rfl⟩ := exists_cons_of_ne_nil hne
  have hc : c.isDigit = true := h c mem_cons_self
  have hspace : isspace c = false := isspace_of_isDigit hc
  have hsign : sign (c :: s) = (false, c :: s) := by
    unfold sign
    split
    · rename_i heq
      rw [(List.cons.inj heq).1] at hc
      cases hc
    · rename_i heq
      rw [(List.cons.inj heq).1] at hc
      cases hc
    · rfl
  have htake : (c :: s).takeWhile Char.isDigit = c :: s := takeWhile_eq_self_iff.mpr h
  rw [atoi, dropWhile_cons_of_neg (by simp [hspace]), hsign]
  simp [htake]

theorem atoi_fmtInt {n : Nat} (h : n ≤ 65535) : atoi (fmtInt n) = n := by
  rw [atoi_digits (fmtInt_ne_nil n) fun c hc => isDigit_of_mem_fmtInt hc, fmtInt_natCast,
    decimal_toDigits]
  omega

theorem length_fmtInt_port {n : Int} (h : 0 ≤ n ∧ n ≤ 65535) : (fmtInt n).length ≤ 5 := by
  obtain ⟨k, rfl⟩ := Int.eq_ofNat_of_zero_le h.1
  exact length_fmtInt_le (by omega)

theorem not_mem_fmtInt_nonneg {n : Int} (h : 0 ≤ n) {c : Char} (hc : c.isDigit = false) :
    c ∉ fmtInt n := by
  obtain ⟨k, rfl⟩ := Int.eq_ofNat_of_zero_le h
  exact not_mem_fmtInt hc

theorem atoi_take_fmtInt {n : Int} (h : 0 ≤ n ∧ n ≤ 65535) : atoi ((fmtInt n).take 7) = n := by
  obtain ⟨k, rfl⟩ := Int.eq_ofNat_of_zero_le h.1
  have hk : k ≤ 65535 := by omega
  have hlen := length_fmtInt_le hk
  rw [take_of_length_le (by omega), atoi_fmtInt hk]

/-! ## Records -/

theorem guard_eq_some {p : Prop} [Decidable p] {u : Unit} : (guard p : Option Unit) = some u ↔ p := by
  rw [guard]
  split_ifs with h
  · exact iff_of_true rfl h
  · exact iff_of_false (by simp) h

theorem records_eq (value : Str) (len : Nat) :
    records value len = (value.splitOn ';').map (·.take (len - 1)) := by
  rw [records, getRuleNums, getNums_eq]
  simp only [getNthValueSafe_eq]
  generalize value.splitOn ';' = items
  induction items with
  | nil => rfl
  | cons item items ih =>
    rw [length_cons, range_succ_eq_map, filterMap_cons_some (by rfl),
      filterMap_map, map_cons, ← ih]
    rfl

theorem records_singleton {rec : Str} (hrec : ';' ∉ rec) (len : Nat) :
    records rec len = [rec.take (len - 1)] := by
  rw [records_eq, splitOn_eq_singleton hrec, map_singleton]

theorem length_le_of_getNthValueSafe {i len : Nat} {value x : Str} {delimit : Char}
    (h : getNthValueSafe i value delimit len = some x) : x.length ≤ len - 1 := by
  rw [getNthValueSafe, Option.map_eq_some_iff] at h
  obtain ⟨z, -, rfl⟩ := h
  exact length_take_le (len - 1) z

theorem getNthValueSafe_intercalate {items : List Str} (hne : items ≠ [])
    (hitems : ∀ item ∈ items, ',' ∉ item) (i len : Nat) :
    getNthValueSafe i ([','].intercalate items) ',' len = items[i]?.map (·.take (len - 1)) := by
  rw [getNthValueSafe_eq, splitOn_intercalate ',' hitems hne]

theorem length_le_of_cut {items : List Str} (hne : items ≠ []) (hitems : ∀ item ∈ items, ',' ∉ item)
    {k i len : Nat} {item x : Str} (hitem : items[i]? = some item)
    (h : getNthValueSafe i (([','].intercalate items).take k) ',' len = some x) :
    x.length ≤ item.length := by
  rw [getNthValueSafe_eq, Option.map_eq_some_iff] at h
  obtain ⟨z, hz, rfl⟩ := h
  obtain ⟨y, hy, hpre⟩ := splitOn_take ',' hz
  rw [splitOn_intercalate ',' hitems hne, hitem] at hy
  obtain rfl := Option.some.inj hy
  exact (length_take_le' (len - 1) z).trans hpre.length_le

/-- The records that are there, none in the empty list. -/
def storedRecords (rules : Str) : List Str := if rules = [] then [] else records rules 256

/-- How much of a record fits behind a list into `rule[8192]`. -/
def room (rules : Str) : Nat := if rules = [] then 8191 else 8190 - rules.length

theorem records_appendRule {rules : Str} (rec : Str) (hroom : rules.length < 8191) :
    records (appendRule rules rec) 256 =
      storedRecords rules ++ records (rec.take (room rules)) 256 := by
  rw [appendRule, storedRecords, room]
  split_ifs with hrules
  · rw [nil_append]
  · have hcut : (rules ++ ";".toList ++ rec).take 8191 =
        rules ++ ';' :: rec.take (8190 - rules.length) := by
      rw [append_assoc, take_append, take_of_length_le hroom.le,
        show 8191 - rules.length = (8190 - rules.length) + 1 by omega]
      rfl
    rw [hcut, records_eq, records_eq, records_eq, splitOn_append_cons_self, map_append]

theorem records_appendRule_full {rules : Str} (rec : Str) (hfull : 8191 ≤ rules.length) :
    (records (appendRule rules rec) 256).length ≤ (storedRecords rules).length := by
  have hrules : rules ≠ [] := by
    rintro rfl
    simp at hfull
  have hcut : appendRule rules rec = rules.take 8191 := by
    rw [appendRule, if_neg hrules, append_assoc, take_append_of_le_length hfull]
  have hcount : (rules.take 8191).count ';' ≤ rules.count ';' :=
    (take_sublist 8191 rules).count_le ';'
  rw [hcut, storedRecords, if_neg hrules, records_eq, records_eq, length_map,
    length_map, length_splitOn, length_splitOn]
  omega

theorem records_eq_singleton {value rec : Str} {len : Nat} :
    records value len = [rec] ↔ ';' ∉ value ∧ rec = value.take (len - 1) := by
  constructor
  · intro h
    have hlen := congrArg List.length h
    rw [records_eq, length_map, length_splitOn] at hlen
    have hnot : ';' ∉ value := count_eq_zero.mp (by simpa using hlen)
    rw [records_singleton hnot] at h
    exact ⟨hnot, (singleton_inj.mp h).symm⟩
  · rintro ⟨hnot, rfl⟩
    exact records_singleton hnot len

end RalinkSdk.Firewall
