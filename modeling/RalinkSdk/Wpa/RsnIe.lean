import Mathlib.Tactic.ByContra

/-!
# The fields of an RSN or WPA element

`WPA_ExtractSuiteFromRSNIE` walks over the counted lists of an element, and wants room for one
suite behind a count also where the count is 0.

## Source

`common/cmm_wpa.c`, `include/dot11i_wpa.h`, `include/wpa_cmm.h`.
-/

namespace RalinkSdk.Wpa

/-! ## The walk -/

abbrev ieWpa : Nat := 221

abbrev ieRsn : Nat := 48

/-- The byte at an offset. -/
def byteAt (e : List (BitVec 8)) (i : Nat) : Nat := (e.getD i 0).toNat

/-- `cpu2le16` of the two bytes at an offset. -/
def le16 (e : List (BitVec 8)) (i : Nat) : Nat := byteAt e i + 256 * byteAt e (i + 1)

/-- `GROUP_SUITE`, `PAIRWISE_SUITE`, `AKM_SUITE`, `RSN_CAP_INFO` and `PMKID_LIST`. -/
inductive SuiteType where
  | group | pairwise | akm | rsnCap | pmkid
  deriving DecidableEq

/-- The walk over the PMKID list at `pBuf`, with `len` bytes left. -/
def extractPmkid (e : List (BitVec 8)) (type : SuiteType) (pBuf len : Nat) : Option Nat × Nat :=
  if len < 2 then (none, 0)
  else
    let pCount := le16 e pBuf
    if 0 < pCount ∧ len < 18 + 16 * pCount - 16 then (none, 0)
    else if type = .pmkid then (if 0 < pCount then some (pBuf + 2) else none, pCount % 256)
    else (none, 0)

/-- The walk from the AKM suites at `pBuf` on, with `len` bytes left. -/
def extractAkm (e : List (BitVec 8)) (type : SuiteType) (pBuf len : Nat) : Option Nat × Nat :=
  if len < 6 then (none, 0)
  else
    let aCnt := le16 e pBuf
    let offset := 6 + 4 * aCnt - 4
    if len < offset then (none, 0)
    else if type = .akm then (some (pBuf + 2), aCnt % 256)
    else if byteAt e 0 = ieWpa then (none, 0)
    else if len - offset < 2 then (none, 0)
    else if type = .rsnCap then (some (pBuf + offset), 1)
    else extractPmkid e type (pBuf + offset + 2) (len - offset - 2)

/-- The walk from the start; `size` is `sizeof(RSNIE)` or `sizeof(RSNIE2)`. -/
def extractSuites (e : List (BitVec 8)) (type : SuiteType) (size len : Nat) : Option Nat × Nat :=
  if len < size then (none, 0)
  else
    let uCnt := le16 e (2 + size - 6)
    let offset := size + 4 * uCnt - 4
    if len < offset then (none, 0)
    else if type = .group then (some (2 + size - 10), 1)
    else if type = .pairwise then (some (2 + size - 4), uCnt % 256)
    else extractAkm e type (2 + offset) (len - offset)

/-- The pointer that is returned, and `*count`. -/
def wpaExtractSuiteFromRSNIE (rsnie : List (BitVec 8)) (type : SuiteType) : Option Nat × Nat :=
  let len := rsnie.length - 2
  if rsnie.length ≤ 2 ∨ byteAt rsnie 1 ≠ len then (none, 0)
  else if byteAt rsnie 0 = ieWpa then extractSuites rsnie type 16 len
  else if byteAt rsnie 0 = ieRsn then extractSuites rsnie type 12 len
  else (none, 0)

/-! ## The grammar -/

/-- The fields that are asked for. -/
inductive Field where
  | group | pairwise | akm | pmkid
  deriving DecidableEq

namespace Field

def type : Field → SuiteType
  | group => .group
  | pairwise => .pairwise
  | akm => .akm
  | pmkid => .pmkid

/-- The size of a suite, and of a PMKID. -/
def size : Field → Nat
  | pmkid => 16
  | _ => 4

end Field

/-- The grammar has the identifier, the length, the OUI of WPA and the version in front of the group
    suite. -/
def groupPos (e : List (BitVec 8)) : Nat := if byteAt e 0 = ieWpa then 8 else 4

/-- Where the pairwise suites begin, behind the group suite and their count. -/
def pairwisePos (e : List (BitVec 8)) : Nat := groupPos e + 4 + 2

def akmPos (e : List (BitVec 8)) : Nat := pairwisePos e + 4 * le16 e (pairwisePos e - 2) + 2

/-- Where the PMKIDs begin, behind the AKM suites, the capabilities and their count. -/
def pmkidPos (e : List (BitVec 8)) : Nat := akmPos e + 4 * le16 e (akmPos e - 2) + 2 + 2

namespace Field

/-- Where the suites of a field begin. -/
def pos (e : List (BitVec 8)) : Field → Nat
  | group => groupPos e
  | pairwise => pairwisePos e
  | akm => akmPos e
  | pmkid => pmkidPos e

/-- How many suites the grammar has in a field. -/
def count (e : List (BitVec 8)) : Field → Nat
  | group => 1
  | f => le16 e (f.pos e - 2)

/-- The element contains the field in full.  An element of WPA has no PMKIDs. -/
def InFull (e : List (BitVec 8)) (f : Field) : Prop :=
  f.pos e + f.size * f.count e ≤ e.length ∧ ¬ (f = pmkid ∧ byteAt e 0 = ieWpa)

/-- What the walk wants besides: also for the group suite the list of the pairwise suites, four
    bytes behind a count, and some PMKID. -/
def Wanted (e : List (BitVec 8)) : Field → Prop
  | group | pairwise => InFull e pairwise ∧ pairwise.pos e + 4 ≤ e.length
  | akm => akm.pos e + 4 ≤ e.length
  | pmkid => pmkid.count e ≠ 0

end Field

/-- An RSN or WPA element that is as long as it says. -/
def IsElement (e : List (BitVec 8)) : Prop :=
  2 < e.length ∧ byteAt e 1 = e.length - 2 ∧ (byteAt e 0 = ieWpa ∨ byteAt e 0 = ieRsn)

/-! ## What is returned -/

theorem byteAt_lt (e : List (BitVec 8)) (i : Nat) : byteAt e i < 256 := (e.getD i 0).isLt

section

variable {e : List (BitVec 8)} {q : Nat}

theorem extractPmkid_eq (hlen : e.length < 258) (hq : q + 2 = pmkidPos e) :
    extractPmkid e Field.pmkid.type q (e.length - q) =
      if pmkidPos e + 16 * le16 e q ≤ e.length ∧ le16 e q ≠ 0 then (some (pmkidPos e), le16 e q)
      else (none, 0) := by
  unfold extractPmkid
  dsimp only
  by_cases hzero : le16 e q = 0
  · simp [hzero]
  · by_cases hfull : pmkidPos e + 16 * le16 e q ≤ e.length
    · rw [if_neg (by omega), if_neg (by omega), if_pos (by decide), if_pos (by omega), if_pos ⟨hfull, hzero⟩,
        hq, Nat.mod_eq_of_lt (by omega)]
    · rw [if_neg (c := _ ∧ _) fun h => hfull h.1]
      by_cases htwo : e.length - q < 2
      · rw [if_pos htwo]
      · rw [if_neg htwo, if_pos (by omega)]

theorem extractAkm_eq (hlen : e.length < 258) (hq : q + 2 = akmPos e) (f : Field)
    (hf : f = .akm ∨ f = .pmkid) : (f.InFull e ∧ f.Wanted e → extractAkm e f.type q (e.length - q) =
      (some (f.pos e), f.count e)) ∧
    (¬ (f.InFull e ∧ f.Wanted e) → extractAkm e f.type q (e.length - q) = (none, 0)) := by
  have hcount : akmPos e - 2 = q := by omega
  rcases hf with rfl | rfl
  · simp only [Field.InFull, Field.Wanted, Field.pos, Field.count, Field.size, hcount]
    unfold extractAkm
    dsimp only
    constructor
    · rintro ⟨⟨hfull, -⟩, hwanted⟩
      rw [if_neg (by omega), if_neg (by omega), if_pos (by decide), hq, Nat.mod_eq_of_lt (by omega)]
    · intro hnot
      by_cases h₁ : e.length - q < 6
      · rw [if_pos h₁]
      · rw [if_neg h₁, if_pos]
        by_contra h₂
        exact hnot ⟨⟨by omega, by simp⟩, by omega⟩
  · have hpmkid : q + 4 * le16 e q + 2 + 2 + 2 = pmkidPos e := by
      rw [pmkidPos, hcount]
      omega
    have hnext := extractPmkid_eq (q := q + 4 * le16 e q + 2 + 2) hlen hpmkid
    have hpos : pmkidPos e - 2 = q + 4 * le16 e q + 2 + 2 := by omega
    simp only [Field.InFull, Field.Wanted, Field.pos, Field.count, Field.size, hpos]
    unfold extractAkm
    dsimp only
    have hoff : q + (6 + 4 * le16 e q - 4) + 2 = q + 4 * le16 e q + 2 + 2 := by omega
    have hleft : e.length - q - (6 + 4 * le16 e q - 4) - 2 =
        e.length - (q + 4 * le16 e q + 2 + 2) := by omega
    rw [hoff, hleft, hnext]
    constructor
    · rintro ⟨⟨hfull, hwpa⟩, hwanted⟩
      rw [if_neg (by omega), if_neg (by omega), if_neg (by decide), if_neg (fun h => hwpa ⟨trivial, h⟩),
        if_neg (by omega), if_neg (by decide), if_pos ⟨by omega, hwanted⟩]
    · intro hnot
      by_cases hwpa : byteAt e 0 = ieWpa
      · simp [hwpa, Field.type]
      · rw [if_neg (c := pmkidPos e + _ ≤ _ ∧ _) fun h => hnot ⟨⟨h.1, fun h => hwpa h.2⟩, h.2⟩]
        simp [Field.type]

theorem extractSuites_eq (hlen : e.length < 258) {size : Nat} (hsize : 12 ≤ size)
    (hgroup : groupPos e = 2 + size - 10) (f : Field) :
    (f.InFull e ∧ f.Wanted e → extractSuites e f.type size (e.length - 2) =
      (some (f.pos e), f.count e)) ∧
    (¬ (f.InFull e ∧ f.Wanted e) → extractSuites e f.type size (e.length - 2) = (none, 0)) := by
  have hpair : pairwisePos e = 2 + size - 4 := by rw [pairwisePos]; omega
  have hcount : pairwisePos e - 2 = 2 + size - 6 := by omega
  have hakm : 2 + (size + 4 * le16 e (2 + size - 6) - 4) + 2 = akmPos e := by
    rw [akmPos, hcount]
    omega
  have hrest := extractAkm_eq hlen hakm f
  have hleft : e.length - 2 - (size + 4 * le16 e (2 + size - 6) - 4) =
      e.length - (2 + (size + 4 * le16 e (2 + size - 6) - 4)) := by omega
  have hpmkid : akmPos e + 2 ≤ pmkidPos e := by rw [pmkidPos]; omega
  unfold extractSuites
  dsimp only
  rw [hleft]
  cases f with
  | group =>
    simp only [Field.InFull, Field.Wanted, Field.pos, Field.count, Field.size, hcount, ← hgroup]
    constructor
    · rintro ⟨⟨hfull, -⟩, ⟨hlist, -⟩, hfour⟩
      rw [if_neg (by omega), if_neg (by omega), if_pos (by decide)]
    · intro hnot
      by_cases h₁ : e.length - 2 < size
      · rw [if_pos h₁]
      · rw [if_neg h₁, if_pos]
        by_contra h₂
        exact hnot ⟨⟨by omega, by simp⟩, ⟨by omega, by simp⟩, by omega⟩
  | pairwise =>
    simp only [Field.InFull, Field.Wanted, Field.pos, Field.count, Field.size, hcount, ← hpair]
    constructor
    · rintro ⟨⟨hfull, -⟩, -, hfour⟩
      rw [if_neg (by omega), if_neg (by omega), if_neg (by decide), if_pos (by decide),
        Nat.mod_eq_of_lt (by omega)]
    · intro hnot
      by_cases h₁ : e.length - 2 < size
      · rw [if_pos h₁]
      · rw [if_neg h₁, if_pos]
        by_contra h₂
        exact hnot ⟨⟨by omega, by simp⟩, ⟨by omega, by simp⟩, by omega⟩
  | akm =>
    obtain ⟨hyes, hno⟩ := hrest (.inl rfl)
    constructor
    · intro h
      have hwanted : akmPos e + 4 ≤ e.length := h.2
      rw [if_neg (by omega), if_neg (by omega), if_neg (by decide), if_neg (by decide), hyes h]
    · intro hnot
      rw [hno hnot]
      simp [Field.type]
  | pmkid =>
    obtain ⟨hyes, hno⟩ := hrest (.inr rfl)
    constructor
    · intro h
      have hfull : pmkidPos e + 16 * _ ≤ e.length := h.1.1
      rw [if_neg (by omega), if_neg (by omega), if_neg (by decide), if_neg (by decide), hyes h]
    · intro hnot
      rw [hno hnot]
      simp [Field.type]

end

/-- **Fields**: the grammar's bytes and count where the element contains the field and what the walk
    wants besides, and nothing elsewhere; what is returned lies inside the element. -/
theorem extractSuite_amended (e : List (BitVec 8)) (f : Field) :
    (IsElement e ∧ f.InFull e ∧ f.Wanted e →
      wpaExtractSuiteFromRSNIE e f.type = (some (f.pos e), f.count e) ∧
        f.pos e + f.size * f.count e ≤ e.length) ∧
    (¬ (IsElement e ∧ f.InFull e ∧ f.Wanted e) →
      wpaExtractSuiteFromRSNIE e f.type = (none, 0)) := by
  have hbyte := byteAt_lt e 1
  unfold wpaExtractSuiteFromRSNIE
  dsimp only
  by_cases hsaid : e.length ≤ 2 ∨ byteAt e 1 ≠ e.length - 2
  · rw [if_pos hsaid]
    exact ⟨fun h => absurd hsaid (by have := h.1.1; have := h.1.2.1; omega), fun _ => rfl⟩
  · rw [if_neg hsaid]
    by_cases hwpa : byteAt e 0 = ieWpa
    · have helem : IsElement e := ⟨by omega, by omega, Or.inl hwpa⟩
      obtain ⟨hyes, hno⟩ := extractSuites_eq (e := e) (by omega) (by decide : 12 ≤ 16)
        (if_pos hwpa) f
      rw [if_pos hwpa]
      exact ⟨fun h => ⟨hyes h.2, h.2.1.1⟩, fun h => hno fun h' => h ⟨helem, h'⟩⟩
    · rw [if_neg hwpa]
      by_cases hrsn : byteAt e 0 = ieRsn
      · have helem : IsElement e := ⟨by omega, by omega, Or.inr hrsn⟩
        obtain ⟨hyes, hno⟩ := extractSuites_eq (e := e) (by omega) (by decide : 12 ≤ 12)
          (if_neg hwpa) f
        rw [if_pos hrsn]
        exact ⟨fun h => ⟨hyes h.2, h.2.1.1⟩, fun h => hno fun h' => h ⟨helem, h'⟩⟩
      · rw [if_neg hrsn]
        exact ⟨fun h => absurd h.1.2.2 (not_or.mpr ⟨hwpa, hrsn⟩), fun _ => rfl⟩

/-- A group suite without a list of pairwise suites behind it. -/
def groupOnly : List (BitVec 8) := [48, 6, 1, 0, 0x00, 0x0f, 0xac, 4]

/-- The element contains its group suite, which is not returned. -/
theorem groupOnly_not_returned : IsElement groupOnly ∧ Field.group.InFull groupOnly ∧
    wpaExtractSuiteFromRSNIE groupOnly .group ≠
      (some (Field.group.pos groupOnly), Field.group.count groupOnly) := by
  refine ⟨⟨by decide, by decide, by decide⟩, ⟨by decide, by decide⟩, by decide⟩

end RalinkSdk.Wpa
