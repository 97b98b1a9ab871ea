import RalinkSdk.Lib.KeyedSlots
import RalinkSdk.Lib.Run
import RalinkSdk.Wpa.Adapter

/-!
# The PMKID cache

Each BSS keeps the PMKs of up to eight stations.  The scan of a full cache for the entry to give up
goes on to a later time of refresh, not to an earlier one.

## Source

`ap/ap_wpa.c`.
-/

namespace RalinkSdk.Wpa

open Lib Crypt Function List

/-- An index of `BSSIDInfo`. -/
abbrev CacheIdx := Fin maxPmkidCount

local instance (priority := 1200) instNeZeroEight : NeZero 8 := ⟨Nat.succ_ne_zero 7⟩

/-! ## The functions -/

def rtmpDeletePMKIDCache (m : Mbss) (idx : CacheIdx) : Mbss :=
  if (m.pmkidCache idx).valid then
    { m with pmkidCache :=
        update m.pmkidCache idx { m.pmkidCache idx with valid := false } }
  else m

/-- A pass of the inner loop of `RTMPMaintainPMKIDCache` that reads the clock as `now`. -/
def maintainSlot (pmkCachePeriod : Nat) (now : CacheIdx → Nat) (m : Mbss) (j : CacheIdx) : Mbss :=
  if (m.pmkidCache j).valid ∧ pmkCachePeriod ≤ now j - (m.pmkidCache j).refreshTime then
    rtmpDeletePMKIDCache m j
  else m

/-- `RTMPMaintainPMKIDCache` for `mbssNum` BSSs, which reads the clock for every slot. -/
def rtmpMaintainPMKIDCache (mbssNum : Nat) (pmkCachePeriod : Nat → Nat)
    (now : Nat → CacheIdx → Nat) (mbss : Nat → Mbss) : Nat → Mbss := fun i =>
  if i < mbssNum then
    (finRange maxPmkidCount).foldl (maintainSlot (pmkCachePeriod i) (now i)) (mbss i)
  else mbss i

/-! ## Runs -/

/-- The caches of all BSSs, the clock, and for each address the PMKID and the PMK that were added
    last. -/
structure Caches where
  mbss : Nat → Mbss
  clock : Nat
  latest : Nat → MacAddr → Option (BitVec 128 × List Byte)

inductive CacheCall where
  | add (apidx : Nat) (addr : MacAddr) (pmkid : BitVec 128) (pmk : List Byte) (now : Nat)
  | delete (apidx : Nat) (idx : CacheIdx)
  | maintain (now : Nat → CacheIdx → Nat) (last : Nat)

variable (mbssNum : Nat) (pmkCachePeriod : Nat → Nat)

/-- The caches after a call; a search changes nothing. -/
def Caches.call (s : Caches) : CacheCall → Caches
  | .add apidx addr pmkid pmk now =>
    { mbss := update s.mbss apidx (rtmpAddPMKIDCache (s.mbss apidx) addr pmkid pmk now)
      clock := now
      latest := update s.latest apidx
        (update (s.latest apidx) addr (some (pmkid, pmk))) }
  | .delete apidx idx =>
    { s with mbss := update s.mbss apidx (rtmpDeletePMKIDCache (s.mbss apidx) idx) }
  | .maintain now last =>
    { s with
      mbss := rtmpMaintainPMKIDCache mbssNum pmkCachePeriod now s.mbss
      clock := last }

/-- The clock does not go back. -/
def InOrder (s : Caches) : CacheCall → Prop
  | .add _ _ _ _ now => s.clock ≤ now
  | .delete _ _ => True
  | .maintain now last => ∀ i j, s.clock ≤ now i j ∧ now i j ≤ last ∧ s.clock ≤ last

/-- A new address is added to a full cache. -/
def FullFor (m : Mbss) (addr : MacAddr) : Prop :=
  (∀ j, (m.pmkidCache j).valid = true) ∧ rtmpSearchPMKIDCache m addr = none

/-- What a call of each function does, and what a search finds. -/
structure CallRight (s : Caches) (e : CacheCall) : Prop where
  distinct : ∀ b i j, ((s.mbss b).pmkidCache i).valid = true →
    ((s.mbss b).pmkidCache j).valid = true →
    ((s.mbss b).pmkidCache i).mac = ((s.mbss b).pmkidCache j).mac → i = j
  search : ∀ b a i, rtmpSearchPMKIDCache (s.mbss b) a = some i →
    s.latest b a = some (((s.mbss b).pmkidCache i).pmkid, ((s.mbss b).pmkidCache i).pmk)
  maintain : ∀ now last, e = .maintain now last → ∀ b j, b < mbssNum →
    (((s.call mbssNum pmkCachePeriod e).mbss b).pmkidCache j =
      if ((s.mbss b).pmkidCache j).refreshTime + pmkCachePeriod b ≤ now b j then
        { (s.mbss b).pmkidCache j with valid := false }
      else (s.mbss b).pmkidCache j)
  evict : ∀ b a pmkid pmk now, e = .add b a pmkid pmk now → FullFor (s.mbss b) a →
    ∀ j, ((s.mbss b).pmkidCache (cacheSlotFor (s.mbss b) a)).refreshTime ≤
      ((s.mbss b).pmkidCache j).refreshTime

/-- The full cache that gets a new address has eight equal times, or zeros in front. -/
def EvictsOldest (s : Caches) (e : CacheCall) : Prop :=
  ∀ b a pmkid pmk now, e = .add b a pmkid pmk now → FullFor (s.mbss b) a →
    (∀ j, ((s.mbss b).pmkidCache j).refreshTime = ((s.mbss b).pmkidCache 0).refreshTime) ∨
    (((s.mbss b).pmkidCache 0).refreshTime = 0 ∧ ((s.mbss b).pmkidCache 1).refreshTime = 0)

/-! ## The scan of a full cache -/

/-- A pass of the scan over the times of refresh. -/
def evictPass (t : CacheIdx → Nat) (acc : Nat × CacheIdx) (i : CacheIdx) : Nat × CacheIdx :=
  if (acc.1 = 0 ∧ acc.2.val = 0) ∨ (acc.1 ≠ 0 ∧ acc.1 < t i) then (t i, i) else acc

theorem fullCacheSlot_eq {m : Mbss} (hvalid : ∀ j, (m.pmkidCache j).valid = true) :
    fullCacheSlot m = ((finRange maxPmkidCount).foldl
      (evictPass fun j => (m.pmkidCache j).refreshTime) (0, 0)).2 := by
  unfold fullCacheSlot
  congr 2
  funext acc i
  simp [evictPass, hvalid i]

section

variable {t : CacheIdx → Nat}

theorem evictPass_foldl {a : Nat × CacheIdx} (hpos : a.1 ≠ 0) (hacc : a.1 = t a.2)
    (l : List CacheIdx) : (l.foldl (evictPass t) a).1 = t (l.foldl (evictPass t) a).2 ∧
      a.1 ≤ (l.foldl (evictPass t) a).1 ∧ ∀ i ∈ l, t i ≤ (l.foldl (evictPass t) a).1 := by
  induction l generalizing a with
  | nil => exact ⟨hacc, le_rfl, fun i hi => nomatch hi⟩
  | cons i l ih =>
    rw [foldl_cons]
    by_cases hlt : a.1 < t i
    · have hpass : evictPass t a i = (t i, i) := if_pos (.inr ⟨hpos, hlt⟩)
      rw [hpass]
      obtain ⟨heq, hle, hall⟩ := ih (a := (t i, i)) (by dsimp only; omega) rfl
      refine ⟨heq, hlt.le.trans hle, fun j hj => ?_⟩
      rcases mem_cons.mp hj with rfl | hj
      · exact hle
      · exact hall j hj
    · have hpass : evictPass t a i = a :=
        if_neg (not_or.mpr ⟨fun h => hpos h.1, fun h => hlt h.2⟩)
      rw [hpass]
      obtain ⟨heq, hle, hall⟩ := ih hpos hacc
      refine ⟨heq, hle, fun j hj => ?_⟩
      rcases mem_cons.mp hj with rfl | hj
      · exact (not_lt.mp hlt).trans hle
      · exact hall j hj

theorem evictPass_stuck {i : CacheIdx} (hi : i.val ≠ 0) (l : List CacheIdx) :
    l.foldl (evictPass t) (0, i) = (0, i) := by
  induction l with
  | nil => rfl
  | cons j l ih =>
    have hpass : evictPass t (0, i) j = (0, i) :=
      if_neg (not_or.mpr ⟨fun h => hi h.2, fun h => h.1 rfl⟩)
    rw [foldl_cons, hpass, ih]

/-- **Eviction**: the entry given up is the oldest one exactly if all are as old, or if the times
    of the first two are 0. -/
theorem evict_minimal_iff :
    (∀ j, t ((finRange maxPmkidCount).foldl (evictPass t) (0, 0)).2 ≤ t j) ↔
      (∀ j, t j = t 0) ∨ (t 0 = 0 ∧ t 1 = 0) := by
  have hlist : finRange maxPmkidCount = 0 :: 1 :: [2, 3, 4, 5, 6, 7] := by decide
  have hmem : ∀ j : CacheIdx, j = 0 ∨ j = 1 ∨ j ∈ ([2, 3, 4, 5, 6, 7] : List CacheIdx) := by decide
  have hfirst : evictPass t (0, 0) 0 = (t 0, 0) := if_pos (.inl ⟨rfl, rfl⟩)
  by_cases h0 : t 0 = 0
  · -- the mark for no candidate: slot 1 follows
    have hsecond : evictPass t (t 0, 0) 1 = (t 1, 1) := if_pos (.inl ⟨h0, rfl⟩)
    rw [hlist, foldl_cons, foldl_cons, hfirst, hsecond]
    by_cases h1 : t 1 = 0
    · rw [h1, evictPass_stuck (by decide)]
      refine iff_of_true (fun j => ?_) (.inr ⟨h0, rfl⟩)
      rw [h1]
      exact Nat.zero_le _
    · obtain ⟨heq, hle, -⟩ := evictPass_foldl (a := (t 1, 1)) h1 rfl [2, 3, 4, 5, 6, 7]
      refine iff_of_false (fun hmin => ?_) ?_
      · have := hmin 0
        dsimp only at hle
        omega
      · rintro (hall | ⟨-, h⟩)
        · exact h1 ((hall 1).trans h0)
        · exact h1 h
  · rw [hlist, foldl_cons, hfirst]
    obtain ⟨heq, hle, hall⟩ := evictPass_foldl (a := (t 0, 0)) h0 rfl (1 :: [2, 3, 4, 5, 6, 7])
    dsimp only at hle
    constructor
    · intro hmin
      left
      intro j
      have hlow := hmin j
      have hlow0 := hmin 0
      rcases hmem j with rfl | rfl | hj
      · rfl
      · have := hall 1 mem_cons_self
        omega
      · have := hall j (mem_cons_of_mem 1 hj)
        omega
    · rintro (hsame | ⟨h, -⟩) j
      · rw [hsame, hsame j]
      · exact absurd h h0

end

/-! ## What the calls keep -/

/-- The address that a slot is searched by. -/
def Mbss.cached (m : Mbss) (i : CacheIdx) : Option MacAddr :=
  if (m.pmkidCache i).valid then some (m.pmkidCache i).mac else none

theorem cached_eq_some {m : Mbss} {i : CacheIdx} {a : MacAddr} :
    m.cached i = some a ↔ (m.pmkidCache i).valid = true ∧ (m.pmkidCache i).mac = a := by
  simp [Mbss.cached]

theorem rtmpSearchPMKIDCache_iff {m : Mbss} (h : KeysDistinct m.cached) {a : MacAddr}
    {i : CacheIdx} : rtmpSearchPMKIDCache m a = some i ↔ m.cached i = some a := by
  apply h.find_eq
  intro j
  rw [cached_eq_some]
  simp

theorem maintainSlot_cache (period : Nat) (now : CacheIdx → Nat) (m : Mbss) (j : CacheIdx) :
    (maintainSlot period now m j).pmkidCache = update m.pmkidCache j
      (if period ≤ now j - (m.pmkidCache j).refreshTime then
        { m.pmkidCache j with valid := false } else m.pmkidCache j) := by
  unfold maintainSlot rtmpDeletePMKIDCache
  by_cases hold : period ≤ now j - (m.pmkidCache j).refreshTime
  · cases hvalid : (m.pmkidCache j).valid with
    | true => simp [hold]
    | false =>
      have hsame : { m.pmkidCache j with valid := false } = m.pmkidCache j := by rw [← hvalid]
      simp [hold, hsame]
  · simp [hold]

theorem maintain_foldl (period : Nat) (now : CacheIdx → Nat) {l : List CacheIdx} (hnodup : l.Nodup)
    (m : Mbss) (i : CacheIdx) :
    (l.foldl (maintainSlot period now) m).pmkidCache i =
      if i ∈ l ∧ period ≤ now i - (m.pmkidCache i).refreshTime then
        { m.pmkidCache i with valid := false }
      else m.pmkidCache i := by
  induction l generalizing m with
  | nil => simp
  | cons j l ih =>
    obtain ⟨hj, hnodup⟩ := nodup_cons.mp hnodup
    rw [foldl_cons, ih hnodup, maintainSlot_cache]
    by_cases hij : i = j
    · rw [hij, if_neg (fun h => hj h.1), update_self]
      simp
    · rw [update_of_ne hij]
      simp [hij]

/-- **Maintenance** of a BSS. -/
theorem rtmpMaintainPMKIDCache_cache (now : Nat → CacheIdx → Nat) (mbss : Nat → Mbss) {b : Nat}
    (hb : b < mbssNum) (j : CacheIdx) :
    (rtmpMaintainPMKIDCache mbssNum pmkCachePeriod now mbss b).pmkidCache j =
      if pmkCachePeriod b ≤ now b j - ((mbss b).pmkidCache j).refreshTime then
        { (mbss b).pmkidCache j with valid := false }
      else (mbss b).pmkidCache j := by
  rw [rtmpMaintainPMKIDCache, if_pos hb, maintain_foldl _ _ (nodup_finRange _)]
  simp

theorem call_cached {s : Caches} {e : CacheCall} (hadd : ∀ b a pmkid pmk now,
      e ≠ .add b a pmkid pmk now) (b : Nat) (j : CacheIdx) :
    ((s.call mbssNum pmkCachePeriod e).mbss b).pmkidCache j = (s.mbss b).pmkidCache j ∨
      ((s.call mbssNum pmkCachePeriod e).mbss b).pmkidCache j =
        { (s.mbss b).pmkidCache j with valid := false } := by
  cases e with
  | add b a pmkid pmk now => exact absurd rfl (hadd b a pmkid pmk now)
  | delete apidx idx =>
    dsimp only [Caches.call]
    by_cases hb : b = apidx
    · subst hb
      rw [update_self, rtmpDeletePMKIDCache]
      split
      · by_cases hj : j = idx
        · subst hj
          exact .inr (update_self ..)
        · exact .inl (update_of_ne hj ..)
      · exact .inl rfl
    · rw [update_of_ne hb]
      exact .inl rfl
  | maintain now last =>
    dsimp only [Caches.call]
    by_cases hb : b < mbssNum
    · rw [rtmpMaintainPMKIDCache_cache _ _ _ _ hb]
      split
      · exact .inr rfl
      · exact .inl rfl
    · rw [rtmpMaintainPMKIDCache, if_neg hb]
      exact .inl rfl

/-- Every valid slot has its own address, what was added for it last, and a time that is not in the
    future. -/
structure Caches.Ok (s : Caches) : Prop where
  distinct : ∀ b, KeysDistinct (s.mbss b).cached
  latest : ∀ b a i, (s.mbss b).cached i = some a →
    s.latest b a = some (((s.mbss b).pmkidCache i).pmkid, ((s.mbss b).pmkidCache i).pmk)
  past : ∀ b j, ((s.mbss b).pmkidCache j).refreshTime ≤ s.clock

theorem cacheSlotFor_only {m : Mbss} (h : KeysDistinct m.cached) {a : MacAddr} {j : CacheIdx}
    (hne : j ≠ cacheSlotFor m a) : m.cached j ≠ some a := by
  intro hj
  have hfound := (rtmpSearchPMKIDCache_iff h).mpr hj
  rw [cacheSlotFor, hfound] at hne
  exact hne rfl

theorem Caches.Ok.call {s : Caches} (h : s.Ok) {e : CacheCall} (horder : InOrder s e) :
    (s.call mbssNum pmkCachePeriod e).Ok := by
  by_cases hadd : ∃ b a pmkid pmk now, e = .add b a pmkid pmk now
  · obtain ⟨b, a, pmkid, pmk, now, rfl⟩ := hadd
    have horder : s.clock ≤ now := horder
    let slot := cacheSlotFor (s.mbss b) a
    have hself : ((rtmpAddPMKIDCache (s.mbss b) a pmkid pmk now).pmkidCache slot) =
        ⟨true, a, now, pmkid, pmk⟩ := update_self ..
    have hrest : ∀ j, j ≠ slot → (rtmpAddPMKIDCache (s.mbss b) a pmkid pmk now).pmkidCache j =
        (s.mbss b).pmkidCache j := fun j hj => update_of_ne hj ..
    refine ⟨fun b' => ?_, fun b' a' i hi => ?_, fun b' j => ?_⟩ <;>
      dsimp only [Caches.call] at * <;> by_cases hb : b' = b
    · subst hb
      rw [update_self]
      apply (h.distinct b').put (i := slot)
      · intro j hj
        rw [Mbss.cached, hrest j hj]
        rfl
      · intro k hk j hj
        obtain ⟨-, rfl⟩ := cached_eq_some.mp hk
        rw [hself]
        exact cacheSlotFor_only (h.distinct b') hj
    · rw [update_of_ne hb]
      exact h.distinct b'
    · subst hb
      rw [update_self] at hi ⊢
      rw [update_self]
      by_cases his : i = slot
      · rw [his] at hi ⊢
        obtain ⟨-, rfl⟩ := cached_eq_some.mp hi
        rw [hself]
        exact update_self ..
      · have hold : (s.mbss b').cached i = some a' := by
          rw [Mbss.cached, hrest i his] at hi
          exact hi
        have hne : a' ≠ a := fun ha => cacheSlotFor_only (h.distinct b') his (ha ▸ hold)
        rw [update_of_ne hne, hrest i his]
        exact h.latest b' a' i hold
    · rw [update_of_ne hb] at hi ⊢
      rw [update_of_ne hb]
      exact h.latest b' a' i hi
    · subst hb
      rw [update_self]
      by_cases hj : j = slot
      · rw [hj, hself]
      · rw [hrest j hj]
        exact (h.past b' j).trans horder
    · rw [update_of_ne hb]
      exact (h.past b' j).trans horder
  · have hslots := call_cached mbssNum pmkCachePeriod (s := s)
      fun b a pmkid pmk now heq => hadd ⟨b, a, pmkid, pmk, now, heq⟩
    have hsub : ∀ b j a, ((s.call mbssNum pmkCachePeriod e).mbss b).cached j = some a →
        (s.mbss b).cached j = some a ∧
          ((s.call mbssNum pmkCachePeriod e).mbss b).pmkidCache j = (s.mbss b).pmkidCache j := by
      intro b j a hj
      rw [cached_eq_some] at hj
      rcases hslots b j with heq | heq
      · rw [heq, ← cached_eq_some] at hj
        exact ⟨hj, heq⟩
      · rw [heq] at hj
        cases hj.1
    have hclock : s.clock ≤ (s.call mbssNum pmkCachePeriod e).clock := by
      cases e with
      | add b a pmkid pmk now => exact horder
      | delete apidx idx => exact le_rfl
      | maintain now last => exact (horder 0 0).2.2
    have hlatest : (s.call mbssNum pmkCachePeriod e).latest = s.latest := by
      cases e with
      | add b a pmkid pmk now => exact absurd ⟨b, a, pmkid, pmk, now, rfl⟩ hadd
      | delete apidx idx => rfl
      | maintain now last => rfl
    refine ⟨fun b => (h.distinct b).mono fun j a hj => (hsub b j a hj).1, fun b a i hi => ?_,
      fun b j => ?_⟩
    · obtain ⟨hold, heq⟩ := hsub b i a hi
      rw [hlatest, heq]
      exact h.latest b a i hold
    · rcases hslots b j with heq | heq <;> rw [heq] <;> exact (h.past b j).trans hclock

theorem cacheSlotFor_full {m : Mbss} {a : MacAddr} (h : FullFor m a) :
    cacheSlotFor m a = fullCacheSlot m := by
  have hnone : (finRange maxPmkidCount).find? (fun i => (m.pmkidCache i).valid = false) =
      none := by
    rw [finRange_find_none]
    intro i
    rw [h.1 i]
    rfl
  rw [cacheSlotFor, h.2]
  simp only [hnone]

theorem callRight_iff {s : Caches} (h : s.Ok) {e : CacheCall} (horder : InOrder s e) :
    CallRight mbssNum pmkCachePeriod s e ↔ EvictsOldest s e := by
  constructor
  · intro hright b a pmkid pmk now he hfull
    apply evict_minimal_iff.mp
    rw [← fullCacheSlot_eq hfull.1, ← cacheSlotFor_full hfull]
    exact hright.evict b a pmkid pmk now he hfull
  · intro hold
    refine ⟨?_, ?_, ?_, fun b a pmkid pmk now he hfull => ?_⟩
    · intro b i j hi hj hmac
      exact h.distinct b i j _ (cached_eq_some.mpr ⟨hi, rfl⟩) (cached_eq_some.mpr ⟨hj, hmac.symm⟩)
    · intro b a i hi
      exact h.latest b a i ((rtmpSearchPMKIDCache_iff (h.distinct b)).mp hi)
    · rintro now last rfl b j hb
      have hpast := (h.past b j).trans (horder b j).1
      dsimp only [Caches.call]
      rw [rtmpMaintainPMKIDCache_cache _ _ _ _ hb]
      congr 1
      rw [Nat.le_sub_iff_add_le hpast, Nat.add_comm]
    · rw [cacheSlotFor_full hfull, fullCacheSlot_eq hfull.1]
      exact evict_minimal_iff.mpr (hold b a pmkid pmk now he hfull)

theorem Caches.Ok.along_iff {s : Caches} (h : s.Ok) {es : List CacheCall}
    (horder : Along (Caches.call mbssNum pmkCachePeriod) InOrder s es) :
    Along (Caches.call mbssNum pmkCachePeriod) (CallRight mbssNum pmkCachePeriod) s es ↔
      Along (Caches.call mbssNum pmkCachePeriod) EvictsOldest s es := by
  induction es generalizing s with
  | nil => exact Iff.rfl
  | cons e es ih =>
    obtain ⟨hfirst, horder⟩ := horder
    rw [along_cons, along_cons, callRight_iff _ _ h hfirst, ih (h.call _ _ hfirst) horder]

theorem Caches.ok_of_empty {s : Caches} (hempty : ∀ b j, ((s.mbss b).pmkidCache j).valid = false)
    (hpast : ∀ b j, ((s.mbss b).pmkidCache j).refreshTime ≤ s.clock) : s.Ok := by
  refine ⟨fun b i j a hi => ?_, fun b a i hi => ?_, hpast⟩ <;> simp [Mbss.cached, hempty b i] at hi

/-- An access point that has just started. -/
def freshCaches : Caches := ⟨fun _ => homeBss, 0, fun _ _ => none⟩

/-- Nine stations, one after the other. -/
def nineAdds : List CacheCall :=
  (range 9).map fun n => .add 0 (BitVec.ofNat 48 n) 0 [] (n + 1)

end RalinkSdk.Wpa
