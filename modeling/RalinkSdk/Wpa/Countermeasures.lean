import RalinkSdk.Wpa.Adapter

/-!
# The timer of the TKIP countermeasures

`CounterMeasureTimer` is set at every MIC failure that counts.  While it runs a second failure
starts the ban, and when it expires the ban ends.

## Source

`ap/ap_wpa.c`, `HandleCounterMeasure` and `CMTimerExec`.
-/

namespace RalinkSdk.Wpa

open Option List

/-! ## The timer -/

/-- `60 * MLME_TASK_EXEC_INTV * MLME_TASK_EXEC_MULTIPLE`, in milliseconds. -/
abbrev cmPeriod : Nat := 60 * 100 * 10

def resetCmTimer (e : Entry) : Entry :=
  if e.kind = .client then { e with cmTimerRunning := false } else e

theorem resetCmTimer_addr (e : Entry) : (resetCmTimer e).addr = e.addr := by
  unfold resetCmTimer
  split <;> rfl

def cmTimerExec (ad : Adapter) : Adapter :=
  { ad with
    banClass3Data := false
    macTab := ad.macTab.map resetCmTimer resetCmTimer_addr
    cmTimerRunning := false }

/-- The access point, and when `CounterMeasureTimer` is due if it is set. -/
structure Timed where
  ad : Adapter
  due : Option Nat

/-- A failure of this entry counts: it is not the client link, and its keys are done. -/
def Counts (e : Entry) : Prop :=
  e.kind ≠ .apcli ∧ WpaState.ptkInitDone.num ≤ e.wpaState.num ∧ e.gtkState = .established

instance (e : Entry) : Decidable (Counts e) := inferInstanceAs (Decidable (_ ∧ _))

/-- A failure of the entry at `addr`, reported at a time in milliseconds. -/
structure Failure where
  addr : MacAddr
  env : Env
  time : Nat

namespace Timed

/-- The clock reaches `time`: the timer expires when it is due. -/
def reach (s : Timed) (time : Nat) : Timed :=
  if s.due.any (· ≤ time) then ⟨cmTimerExec s.ad, none⟩ else s

/-- `HandleCounterMeasure` with the timer, which every failure that counts sets. -/
def fail (s : Timed) (f : Failure) : Timed :=
  match s.ad.macTab.entry f.addr with
  | none => s
  | some e => ⟨handleCounterMeasure s.ad e f.env,
      if Counts e then some (f.time + cmPeriod) else s.due⟩

end Timed

/-- A run so far, with the times of the failures that counted, the last one first. -/
structure Run where
  timed : Timed
  counted : List Nat

def Run.step (r : Run) (f : Failure) : Run :=
  let s := r.timed.reach f.time
  ⟨s.fail f, if (s.ad.macTab.entry f.addr).any (fun e => Counts e) then f.time :: r.counted
    else r.counted⟩

/-- The access point `ad` after the failures `fs`. -/
def Run.after (ad : Adapter) (fs : List Failure) : Run := fs.foldl Run.step ⟨⟨ad, none⟩, []⟩

/-! ## What a failure does -/

theorem handleCounterMeasure_ignored {ad : Adapter} {e : Entry} {env : Env} (h : ¬ Counts e) :
    handleCounterMeasure ad e env = ad := by
  unfold handleCounterMeasure
  by_cases hkind : e.kind = .apcli
  · exact if_pos hkind
  · rw [if_neg hkind, if_pos]
    by_contra hnot
    obtain ⟨hstate, hgtk⟩ := not_or.mp hnot
    exact h ⟨hkind, not_lt.mp hstate, not_not.mp hgtk⟩

section

variable {ad : Adapter} {e : Entry} {env : Env}

theorem handleCounterMeasure_counted (ad : Adapter) (env : Env) (h : Counts e) :
    (handleCounterMeasure ad e env).cmTimerRunning = true ∧
    (handleCounterMeasure ad e env).banClass3Data = (ad.banClass3Data || ad.cmTimerRunning) ∧
    (ad.cmTimerRunning = true → (handleCounterMeasure ad e env).macTab =
      deAuthClients (ad.macTab.set { e with cmTimerRunning := true }) env) := by
  obtain ⟨hkind, hstate, hgtk⟩ := h
  have hcond : ¬ (e.wpaState.num < WpaState.ptkInitDone.num ∨ e.gtkState ≠ .established) :=
    not_or.mpr ⟨not_lt.mpr hstate, not_not.mpr hgtk⟩
  unfold handleCounterMeasure
  rw [if_neg hkind, if_neg hcond]
  cases hrun : ad.cmTimerRunning <;> simp

theorem deAuthClients_left {t : MacTab} {a : MacAddr} {x : Entry}
    (h : (deAuthClients t env).entry a = some x) : x.kind = .client → env.mpool a = false := by
  obtain ⟨hx, hkeep⟩ := filter_eq_some_iff.mp h
  intro hkind
  rw [hkind, t.addr_eq a x hx] at hkeep
  simpa using hkeep

end

/-! ## Runs -/

/-- What holds at a time that no event of the run is behind. -/
structure Run.Ok (r : Run) (time : Nat) : Prop where
  running : r.timed.ad.cmTimerRunning = r.timed.due.isSome
  due : ∀ d, r.timed.due = some d → ∃ t rest, r.counted = t :: rest ∧ d = t + cmPeriod
  off : r.timed.due = none → ∀ t rest, r.counted = t :: rest → t + cmPeriod ≤ time
  ban : r.timed.ad.banClass3Data = true ↔ r.timed.due.isSome ∧
    ∃ t t' rest, r.counted = t :: t' :: rest ∧ t < t' + cmPeriod

namespace Run.Ok

variable {r : Run} {time time' : Nat}

theorem reach (h : r.Ok time) (hle : time ≤ time') : Ok ⟨r.timed.reach time', r.counted⟩ time' ∧
    ∀ d, (r.timed.reach time').due = some d → time' < d := by
  unfold Timed.reach
  cases hdue : r.timed.due with
  | none =>
    refine ⟨⟨h.running, fun d hd => h.due d hd, fun _ t rest ht => ?_, h.ban⟩, ?_⟩
    · exact (h.off hdue t rest ht).trans hle
    · intro d hd
      rw [if_neg (by simp), hdue] at hd
      cases hd
  | some d =>
    by_cases hd : d ≤ time'
    · obtain ⟨t, rest, hcounted, rfl⟩ := h.due d hdue
      rw [if_pos (by simpa using hd)]
      refine ⟨⟨rfl, fun d hd => (nomatch hd), fun _ t' rest' ht' => ?_, by simp [cmTimerExec]⟩,
        fun d hd => (nomatch hd)⟩
      obtain ⟨rfl, -⟩ := List.cons.inj (hcounted.symm.trans ht')
      exact hd
    · rw [if_neg (by simpa using hd)]
      refine ⟨⟨h.running, h.due, fun hnone => ?_, h.ban⟩, fun d' hd' => ?_⟩
      · rw [hdue] at hnone
        cases hnone
      · obtain rfl := some.inj (hdue.symm.trans hd')
        omega

theorem running_iff (h : r.Ok time) (hle : time ≤ time') :
    (r.timed.reach time').ad.cmTimerRunning = true ↔
      ∃ t rest, r.counted = t :: rest ∧ time' < t + cmPeriod := by
  obtain ⟨hok, hlate⟩ := h.reach hle
  rw [show (r.timed.reach time').ad.cmTimerRunning = _ from hok.running]
  constructor
  · intro hsome
    obtain ⟨d, hd⟩ := isSome_iff_exists.mp hsome
    obtain ⟨t, rest, hcounted, rfl⟩ := hok.due d hd
    exact ⟨t, rest, hcounted, hlate _ hd⟩
  · rintro ⟨t, rest, hcounted, hlt⟩
    by_contra hnone
    have := hok.off (not_isSome_iff_eq_none.mp hnone) t rest hcounted
    omega

/-- **The ban** at any time. -/
theorem ban_iff (h : r.Ok time) (hle : time ≤ time') :
    (r.timed.reach time').ad.banClass3Data = true ↔
      ∃ t t' rest, r.counted = t :: t' :: rest ∧ t < t' + cmPeriod ∧ time' < t + cmPeriod := by
  have hok := (h.reach hle).1
  have hrun := h.running_iff hle
  rw [show (r.timed.reach time').ad.cmTimerRunning = _ from hok.running] at hrun
  rw [show (r.timed.reach time').ad.banClass3Data = true ↔ _ from hok.ban, hrun]
  constructor
  · rintro ⟨⟨t, rest, hcounted, hlt⟩, t₁, t', rest', hcounted', hpair⟩
    obtain ⟨rfl, -⟩ := List.cons.inj (hcounted.symm.trans hcounted')
    exact ⟨t, t', rest', hcounted', hpair, hlt⟩
  · rintro ⟨t, t', rest, hcounted, hpair, hlt⟩
    exact ⟨⟨t, t' :: rest, hcounted, hlt⟩, t, t', rest, hcounted, hpair⟩

/-- **One failure more.** -/
theorem step (h : r.Ok time) {f : Failure} (hle : time ≤ f.time) : (r.step f).Ok f.time := by
  have hok := (h.reach hle).1
  have hrun := h.running_iff hle
  have hban := h.ban_iff hle
  unfold Run.step Timed.fail
  dsimp only
  cases he : (r.timed.reach f.time).ad.macTab.entry f.addr with
  | none => exact hok
  | some e =>
    by_cases hc : Counts e
    · obtain ⟨htimer, hnew, -⟩ :=
        handleCounterMeasure_counted (r.timed.reach f.time).ad f.env hc
      simp only [any_some, decide_eq_true hc, if_true, if_pos hc]
      refine ⟨htimer, fun d hd => ⟨f.time, r.counted, rfl, (some.inj hd).symm⟩,
        fun hnone => (nomatch hnone), ?_⟩
      rw [hnew, Bool.or_eq_true, hban, hrun]
      constructor
      · rintro (⟨t, t', rest, hcounted, -, hlt⟩ | ⟨t, rest, hcounted, hlt⟩)
        · exact ⟨rfl, f.time, t, t' :: rest, by rw [hcounted], hlt⟩
        · exact ⟨rfl, f.time, t, rest, by rw [hcounted], hlt⟩
      · rintro ⟨-, t₁, t, rest, hcounted, hlt⟩
        obtain ⟨rfl, hrest⟩ := List.cons.inj hcounted
        exact .inr ⟨t, rest, hrest, hlt⟩
    · simp only [handleCounterMeasure_ignored hc, if_neg hc, any_some, decide_eq_false hc]
      exact hok

end Run.Ok

theorem Run.ok_foldl {r : Run} {time : Nat} (h : r.Ok time) {fs : List Failure}
    (hsorted : fs.Pairwise fun f g => f.time ≤ g.time) (hle : ∀ f ∈ fs, time ≤ f.time)
    {last : Nat} (hlast : ∀ f ∈ fs, f.time ≤ last) (hbehind : time ≤ last) :
    ∃ time', time' ≤ last ∧ (fs.foldl Run.step r).Ok time' := by
  induction fs generalizing r time with
  | nil => exact ⟨time, hbehind, h⟩
  | cons f fs ih =>
    obtain ⟨hfirst, hsorted⟩ := pairwise_cons.mp hsorted
    apply ih (h.step (hle f mem_cons_self)) hsorted hfirst
    · intro g hg
      exact hlast g (mem_cons_of_mem f hg)
    · exact hlast f mem_cons_self

/-- A client whose keys are done. -/
def keyedClient (a : MacAddr) : Entry :=
  { homeStation a .wpaPsk with wpaState := .ptkInitDone, gtkState := .established }

end RalinkSdk.Wpa
