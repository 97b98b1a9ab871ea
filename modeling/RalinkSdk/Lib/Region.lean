import Mathlib.Data.BitVec
import Mathlib.Data.List.Basic

/-!
# Regions of memory

A region is the list of its bytes.  Bytes are read and stored at an offset, and `none` is an access
that leaves the region.

## Main results

- `put_append`, `fetch_append`: what is done behind a known start of the region.
- `fetch_isSome_iff`, `put_isSome_iff`: which accesses stay inside.
-/

namespace RalinkSdk.Lib

open List

variable {α : Type}

/-- `n` bytes from an offset on. -/
def fetch (region : List α) (i n : Nat) : Option (List α) :=
  if i + n ≤ region.length then some ((region.drop i).take n) else none

/-- Bytes stored at an offset. -/
def put (region : List α) (i : Nat) (src : List α) : Option (List α) :=
  if i + src.length ≤ region.length then
    some (region.take i ++ (src ++ region.drop (i + src.length)))
  else none

section

variable {region pre old suf src bytes : List α} {i n : Nat}

theorem fetch_eq_some_iff : fetch region i n = some bytes ↔
      i + n ≤ region.length ∧ (region.drop i).take n = bytes := by
  unfold fetch
  split
  · next h => simp [h]
  · next h => simp [h]

theorem fetch_isSome_iff : (fetch region i n).isSome ↔ i + n ≤ region.length := by
  unfold fetch
  split
  · next h => simpa using h
  · next h => simpa using h

theorem length_fetch (h : fetch region i n = some bytes) : bytes.length = n := by
  obtain ⟨hroom, rfl⟩ := fetch_eq_some_iff.mp h
  rw [length_take, length_drop]
  omega

theorem fetch_append (hi : pre.length = i) (hn : old.length = n) :
    fetch (pre ++ (old ++ suf)) i n = some old := by
  rw [fetch_eq_some_iff]
  constructor
  · simp only [length_append]
    omega
  · rw [drop_left' hi, take_left' hn]

theorem fetch_append_nil (hi : pre.length = i) (hn : old.length = n) :
    fetch (pre ++ old) i n = some old := by
  have h : fetch (pre ++ (old ++ [])) i n = some old := fetch_append hi hn
  rwa [append_nil] at h

theorem fetch_take (h : fetch region i n = some bytes) {k : Nat} (hk : k ≤ n) :
    fetch region i k = some (bytes.take k) := by
  obtain ⟨hroom, rfl⟩ := fetch_eq_some_iff.mp h
  rw [fetch_eq_some_iff, take_take, Nat.min_eq_left hk]
  exact ⟨by omega, rfl⟩

theorem fetch_drop (h : fetch region i n = some bytes) {k : Nat} (hk : k ≤ n) :
    fetch region (i + k) (n - k) = some (bytes.drop k) := by
  obtain ⟨hroom, rfl⟩ := fetch_eq_some_iff.mp h
  rw [fetch_eq_some_iff, drop_take, drop_drop]
  exact ⟨by omega, rfl⟩

theorem getElem?_fetch (h : fetch region i n = some bytes) {k : Nat} (hk : k < n) :
    region[i + k]? = bytes[k]? := by
  obtain ⟨-, rfl⟩ := fetch_eq_some_iff.mp h
  rw [getElem?_take_of_lt hk, getElem?_drop]

theorem fetch_eq_some_of_getElem? (hroom : i + n ≤ region.length) (hlen : bytes.length = n)
    (h : ∀ k < n, region[i + k]? = bytes[k]?) : fetch region i n = some bytes := by
  rw [fetch_eq_some_iff]
  refine ⟨hroom, ext_getElem? fun k => ?_⟩
  by_cases hk : k < n
  · rw [getElem?_take_of_lt hk, getElem?_drop]
    exact h k hk
  · have hshort : ((region.drop i).take n).length ≤ k := by
      rw [length_take]
      omega
    rw [getElem?_eq_none hshort, getElem?_eq_none (by omega)]

theorem fetch_whole (hn : old.length = n) : fetch old 0 n = some old :=
  fetch_append_nil length_nil hn

end

section

variable {region region' pre old suf src : List α} {i n : Nat}

theorem put_eq_some_iff : put region i src = some region' ↔
      i + src.length ≤ region.length ∧
        region.take i ++ (src ++ region.drop (i + src.length)) = region' := by
  unfold put
  split
  · next h => simp [h]
  · next h => simp [h]

theorem put_isSome_iff : (put region i src).isSome ↔ i + src.length ≤ region.length := by
  unfold put
  split
  · next h => simpa using h
  · next h => simpa using h

theorem length_put (h : put region i src = some region') : region'.length = region.length := by
  obtain ⟨hroom, rfl⟩ := put_eq_some_iff.mp h
  simp only [length_append, length_take, length_drop]
  omega

theorem put_append (hi : pre.length = i) (hlen : old.length = src.length) :
    put (pre ++ (old ++ suf)) i src = some (pre ++ (src ++ suf)) := by
  rw [put_eq_some_iff]
  constructor
  · simp only [length_append]
    omega
  · have hdrop : (pre ++ (old ++ suf)).drop (i + src.length) = suf := by
      rw [← append_assoc]
      exact drop_left' (by rw [length_append, hi, hlen])
    rw [take_left' hi, hdrop]

theorem getElem?_put (h : put region i src = some region') (j : Nat) :
    region'[j]? = if i ≤ j ∧ j < i + src.length then src[j - i]? else region[j]? := by
  obtain ⟨hroom, rfl⟩ := put_eq_some_iff.mp h
  have htake : (region.take i).length = i := by
    rw [length_take]
    omega
  by_cases hi : i ≤ j
  · rw [getElem?_append_right (by omega), htake]
    by_cases hj : j < i + src.length
    · rw [if_pos ⟨hi, hj⟩, getElem?_append_left (by omega)]
    · rw [if_neg fun hboth => hj hboth.2, getElem?_append_right (by omega),
        getElem?_drop]
      congr 1
      omega
  · rw [if_neg fun hboth => hi hboth.1, getElem?_append_left (by omega),
      getElem?_take_of_lt (by omega)]

theorem fetch_put_self (h : put region i src = some region') :
    fetch region' i src.length = some src := by
  obtain ⟨hroom, rfl⟩ := put_eq_some_iff.mp h
  apply fetch_append
  · rw [length_take]
    omega
  · rfl

theorem fetch_put {k : Nat} (hold : fetch region i n = some old)
    (h : put region (i + k) src = some region') (hk : k + src.length ≤ n) :
    fetch region' i n = some (old.take k ++ (src ++ old.drop (k + src.length))) := by
  have hroom := (fetch_eq_some_iff.mp hold).1
  have holdLen := length_fetch hold
  have htake : (old.take k).length = k := by
    rw [length_take]
    omega
  apply fetch_eq_some_of_getElem?
  · rw [length_put h]
    exact hroom
  · simp only [length_append, htake, length_drop]
    omega
  intro j hj
  rw [getElem?_put h]
  by_cases hfront : j < k
  · rw [if_neg (by omega), getElem?_fetch hold hj, getElem?_append_left (by omega),
      getElem?_take_of_lt hfront]
  rw [getElem?_append_right (by omega), htake]
  by_cases hmid : j < k + src.length
  · rw [if_pos (by omega), getElem?_append_left (by omega)]
    congr 1
    omega
  · rw [if_neg (by omega), getElem?_fetch hold hj, getElem?_append_right (by omega),
      getElem?_drop]
    congr 1
    omega

theorem fetch_put_of_disjoint {j : Nat} (h : put region i src = some region')
    (hapart : j + n ≤ i ∨ i + src.length ≤ j) : fetch region' j n = fetch region j n := by
  by_cases hroom : j + n ≤ region.length
  · obtain ⟨bytes, hbytes⟩ := Option.isSome_iff_exists.mp (fetch_isSome_iff.mpr hroom)
    rw [hbytes]
    refine fetch_eq_some_of_getElem? (by rw [length_put h]; exact hroom) (length_fetch hbytes) ?_
    intro k hk
    rw [getElem?_put h, if_neg (by omega), getElem?_fetch hbytes hk]
  · rw [fetch, fetch, if_neg hroom, if_neg (by rw [length_put h]; exact hroom)]

theorem put_of_fetch (h : fetch region i n = some src) : put region i src = some region := by
  obtain ⟨hroom, hsrc⟩ := fetch_eq_some_iff.mp h
  rw [put_eq_some_iff, length_fetch h]
  refine ⟨hroom, ?_⟩
  rw [← hsrc, ← drop_drop, take_append_drop, take_append_drop]

end

end RalinkSdk.Lib
