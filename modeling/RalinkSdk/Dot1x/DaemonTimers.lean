import RalinkSdk.Dot1x.DaemonReplies

/-!
# Timeouts and the objects they name

A timeout of the event loop carries the address of a station or of a state machine.  Freeing
a machine cancels its tick.  Freeing a station cancels nothing: a session timer that was armed
by an earlier Access-Accept stays behind and names a station that is gone.
-/

namespace RalinkSdk.Dot1x

open Lib List Option Function Nat

namespace Daemon

variable {d : Daemon} {ts : List EloopTimeout} {t u : EloopTimeout}

/-! ## The timeouts of the event loop -/

@[simp] theorem mem_insertTimeout : u ∈ insertTimeout t ts ↔ u = t ∨ u ∈ ts := by
  induction ts with
  | nil => simp [insertTimeout]
  | cons v ts ih =>
    unfold insertTimeout
    split
    · simp
    · simp only [mem_cons, ih]
      tauto

def Registered (d : Daemon) (h : TimeoutHandler) : Prop := ∃ t ∈ d.timeouts, t.handler = h

theorem registered_register {now secs : Nat} {h h' : TimeoutHandler} :
    (d.eloopRegisterTimeout now secs h).Registered h' ↔ h' = h ∨ d.Registered h' := by
  simp only [Registered, eloopRegisterTimeout, mem_insertTimeout]
  constructor
  · rintro ⟨t, rfl | ht, rfl⟩
    · exact .inl rfl
    · exact .inr ⟨t, ht, rfl⟩
  · rintro (rfl | ⟨t, ht, rfl⟩)
    · exact ⟨_, .inl rfl, rfl⟩
    · exact ⟨t, .inr ht, rfl⟩

theorem registered_cancel {h h' : TimeoutHandler} :
    (d.eloopCancelTimeout h).Registered h' ↔ h' ≠ h ∧ d.Registered h' := by
  simp only [Registered, eloopCancelTimeout, mem_filter, decide_eq_true_eq]
  constructor
  · rintro ⟨t, ⟨ht, hne⟩, rfl⟩
    exact ⟨hne, t, ht, rfl⟩
  · rintro ⟨hne, t, ht, rfl⟩
    exact ⟨t, ⟨ht, hne⟩, rfl⟩

/-! ## The invariant -/

/-- The stations of the list and their machines are allocated, each once, and every timeout
    names one of them. -/
structure TimersOk (d : Daemon) : Prop where
  sta_nodup : (d.staList.map StaInfo.sta).Nodup
  sm_nodup : (d.staList.filterMap StaInfo.eapolSm).Nodup
  sta_lt : ∀ s ∈ d.staList, s.sta < d.nextSta
  sm_lt : ∀ s ∈ d.staList, ∀ sm, s.eapolSm = some sm → sm < d.nextSm
  sta_live : ∀ s ∈ d.staList, d.liveSta s.sta = true
  sm_live : ∀ s ∈ d.staList, ∀ sm, s.eapolSm = some sm → d.liveSm sm = true
  tick : ∀ sm, d.Registered (.eapolPortTimersTick sm) → ∃ s ∈ d.staList, s.eapolSm = some sm
  session : ∀ sta, d.Registered (.apHandleSessionTimer sta) → ∃ s ∈ d.staList, s.sta = sta

/-- What a timeout names has not been freed. -/
def NamesLive (d : Daemon) : TimeoutHandler → Prop
  | .eapolPortTimersTick sm => d.liveSm sm = true
  | .apHandleSessionTimer sta => d.liveSta sta = true

theorem TimersOk.namesLive (h : TimersOk d) (ht : t ∈ d.timeouts) : d.NamesLive t.handler := by
  cases hh : t.handler with
  | eapolPortTimersTick sm =>
    obtain ⟨s, hs, hsm⟩ := h.tick sm ⟨t, ht, hh⟩
    exact h.sm_live s hs sm hsm
  | apHandleSessionTimer sta =>
    obtain ⟨s, hs, rfl⟩ := h.session sta ⟨t, ht, hh⟩
    exact h.sta_live s hs

theorem TimersOk.map (h : TimersOk d) {f : StaInfo → StaInfo}
    (hf : ∀ s, (f s).sta = s.sta ∧ (f s).eapolSm = s.eapolSm) :
    TimersOk { d with staList := d.staList.map f } := by
  have hsta : (d.staList.map f).map StaInfo.sta = d.staList.map StaInfo.sta := by
    rw [List.map_map]
    exact map_congr_left fun s _ => (hf s).1
  have hsm : (d.staList.map f).filterMap StaInfo.eapolSm = d.staList.filterMap StaInfo.eapolSm := by
    rw [filterMap_map]
    exact filterMap_congr fun s _ => (hf s).2
  have hmem : ∀ s ∈ d.staList.map f, ∃ s₀ ∈ d.staList, s.sta = s₀.sta ∧ s.eapolSm = s₀.eapolSm := by
    intro s hs
    obtain ⟨s₀, hs₀, rfl⟩ := mem_map.mp hs
    exact ⟨s₀, hs₀, hf s₀⟩
  refine ⟨hsta ▸ h.sta_nodup, hsm ▸ h.sm_nodup, ?_, ?_, ?_, ?_, ?_, ?_⟩
  · intro s hs
    obtain ⟨s₀, hs₀, heq, _⟩ := hmem s hs
    exact heq ▸ h.sta_lt s₀ hs₀
  · intro s hs sm hsm
    obtain ⟨s₀, hs₀, _, heq⟩ := hmem s hs
    exact h.sm_lt s₀ hs₀ sm (heq ▸ hsm)
  · intro s hs
    obtain ⟨s₀, hs₀, heq, _⟩ := hmem s hs
    exact heq ▸ h.sta_live s₀ hs₀
  · intro s hs sm hsm
    obtain ⟨s₀, hs₀, _, heq⟩ := hmem s hs
    exact h.sm_live s₀ hs₀ sm (heq ▸ hsm)
  · intro sm hreg
    obtain ⟨s, hs, hsm⟩ := h.tick sm hreg
    exact ⟨f s, mem_map_of_mem hs, (hf s).2.trans hsm⟩
  · intro sta hreg
    obtain ⟨s, hs, hsta⟩ := h.session sta hreg
    exact ⟨f s, mem_map_of_mem hs, (hf s).1.trans hsta⟩

theorem TimersOk.setRadiusIdentifier (h : TimersOk d) (sta : Nat) (id : Option (BitVec 8)) :
    TimersOk (d.setRadiusIdentifier sta id) := by
  apply h.map
  intro s
  split
  · exact ⟨rfl, rfl⟩
  · exact ⟨rfl, rfl⟩

/-! ## New stations and machines -/

theorem registered_eapolSmAllocFor {now : Nat} {hd : TimeoutHandler}
    (h : (d.eapolSmAllocFor now).1.Registered hd) :
    hd = .eapolPortTimersTick d.nextSm ∨ d.Registered hd := by
  rcases registered_register.mp h with heq | hreg
  · exact .inl heq
  · exact .inr (registered_cancel.mp hreg).2

theorem TimersOk.nextSm_not_mem (h : TimersOk d) :
    d.nextSm ∉ d.staList.filterMap StaInfo.eapolSm := by
  intro hmem
  obtain ⟨s, hs, hsm⟩ := mem_filterMap.mp hmem
  exact absurd (h.sm_lt s hs _ hsm) (lt_irrefl _)

theorem TimersOk.nextSta_not_mem (h : TimersOk d) : d.nextSta ∉ d.staList.map StaInfo.sta := by
  intro hmem
  obtain ⟨s, hs, hsta⟩ := mem_map.mp hmem
  exact absurd (hsta ▸ h.sta_lt s hs) (lt_irrefl _)

theorem TimersOk.addSta (h : TimersOk d) (addr : BitVec 48) (apIdx : Fin maxMbssidNum) :
    TimersOk { d with
      nextSta := d.nextSta + 1
      liveSta := update d.liveSta d.nextSta true
      staList := ⟨d.nextSta, addr, apIdx, none, none⟩ :: d.staList } where
  sta_nodup := nodup_cons.mpr ⟨h.nextSta_not_mem, h.sta_nodup⟩
  sm_nodup := h.sm_nodup
  sta_lt s hs := by
    rcases mem_cons.mp hs with rfl | hs
    · exact lt_succ_self _
    · exact lt_succ_of_lt (h.sta_lt s hs)
  sm_lt s hs sm hsm := by
    rcases mem_cons.mp hs with rfl | hs
    · cases hsm
    · exact h.sm_lt s hs sm hsm
  sta_live s hs := by
    rcases mem_cons.mp hs with rfl | hs
    · simp
    · have hne : s.sta ≠ d.nextSta := (h.sta_lt s hs).ne
      simpa [hne] using h.sta_live s hs
  sm_live s hs sm hsm := by
    rcases mem_cons.mp hs with rfl | hs
    · cases hsm
    · exact h.sm_live s hs sm hsm
  tick sm hreg := by
    obtain ⟨s, hs, hsm⟩ := h.tick sm hreg
    exact ⟨s, mem_cons_of_mem _ hs, hsm⟩
  session sta hreg := by
    obtain ⟨s, hs, hsta⟩ := h.session sta hreg
    exact ⟨s, mem_cons_of_mem _ hs, hsta⟩

theorem TimersOk.addSm (h : TimersOk d) {pre post : List StaInfo} {s : StaInfo} (now : Nat)
    (hlist : d.staList = pre ++ s :: post) (hnone : s.eapolSm = none) :
    TimersOk { (d.eapolSmAllocFor now).1 with
      staList := pre ++ { s with eapolSm := some d.nextSm } :: post } := by
  have hmem : ∀ x ∈ pre ++ { s with eapolSm := some d.nextSm } :: post,
      x ∈ d.staList ∨ x = { s with eapolSm := some d.nextSm } := by
    intro x hx
    rw [hlist]
    simp only [mem_append, mem_cons] at hx ⊢
    tauto
  have hs : s ∈ d.staList := by simp [hlist]
  have hkeep : ∀ x ∈ d.staList, ∃ y ∈ pre ++ { s with eapolSm := some d.nextSm } :: post,
      y.sta = x.sta ∧ ∀ sm, x.eapolSm = some sm → y.eapolSm = some sm := by
    intro x hx
    rw [hlist] at hx
    rcases mem_append.mp hx with hx | hx
    · exact ⟨x, by simp [hx], rfl, fun _ heq => heq⟩
    · rcases mem_cons.mp hx with rfl | hx
      · exact ⟨_, mem_append_right pre mem_cons_self, rfl,
          fun sm heq => absurd (hnone.symm.trans heq) (by simp)⟩
      · exact ⟨x, by simp [hx], rfl, fun _ heq => heq⟩
  have hfresh := h.nextSm_not_mem
  have hsta := h.sta_nodup
  have hsm := h.sm_nodup
  rw [hlist] at hfresh hsta hsm
  refine ⟨?_, ?_, ?_, ?_, ?_, ?_, ?_, ?_⟩
  · simpa using hsta
  · simp only [filterMap_append, filterMap_cons, hnone] at hfresh hsm ⊢
    rw [nodup_middle, nodup_cons]
    exact ⟨hfresh, hsm⟩
  · intro x hx
    rcases hmem x hx with hx | rfl
    · exact h.sta_lt x hx
    · exact h.sta_lt s hs
  · intro x hx sm heq
    show sm < d.nextSm + 1
    rcases hmem x hx with hx | rfl
    · exact lt_succ_of_lt (h.sm_lt x hx sm heq)
    · rw [← some.inj heq]
      exact lt_succ_self _
  · intro x hx
    rcases hmem x hx with hx | rfl
    · exact h.sta_live x hx
    · exact h.sta_live s hs
  · intro x hx sm heq
    show update d.liveSm d.nextSm true sm = true
    rcases hmem x hx with hx | rfl
    · have hne : sm ≠ d.nextSm := (h.sm_lt x hx sm heq).ne
      simpa [hne] using h.sm_live x hx sm heq
    · rw [← some.inj heq]
      simp
  · intro sm hreg
    rcases registered_eapolSmAllocFor hreg with heq | hreg
    · rw [TimeoutHandler.eapolPortTimersTick.inj heq]
      exact ⟨_, mem_append_right pre mem_cons_self, rfl⟩
    · obtain ⟨x, hx, hxsm⟩ := h.tick sm hreg
      obtain ⟨y, hy, _, hysm⟩ := hkeep x hx
      exact ⟨y, hy, hysm sm hxsm⟩
  · intro sta hreg
    rcases registered_eapolSmAllocFor hreg with heq | hreg
    · cases heq
    · obtain ⟨x, hx, hxsta⟩ := h.session sta hreg
      obtain ⟨y, hy, hysta, _⟩ := hkeep x hx
      exact ⟨y, hy, hysta.trans hxsta⟩

theorem TimersOk.apGetSta (h : TimersOk d) (addr : BitVec 48) (apIdx : Fin maxMbssidNum)
    (memory smMemory : Bool) (now : Nat) : TimersOk (d.apGetSta addr apIdx memory smMemory now) := by
  have hadd := h.addSta addr apIdx
  unfold Daemon.apGetSta
  split
  · exact h
  · split
    · exact h
    · dsimp only
      split
      · exact hadd.addSm now (nil_append _).symm rfl
      · exact hadd

theorem map_sta_eq {l pre post : List StaInfo} {s : StaInfo} {f : StaInfo → StaInfo}
    (hl : l = pre ++ s :: post) (hnd : (l.map StaInfo.sta).Nodup) :
    (l.map fun x => if x.sta = s.sta then f x else x) = pre ++ f s :: post := by
  subst hl
  rw [map_append, map_cons, nodup_middle, nodup_cons, ← map_append] at hnd
  have hother : ∀ x ∈ pre ++ post, (if x.sta = s.sta then f x else x) = x := by
    intro x hx
    have hne : x.sta ≠ s.sta := fun heq => hnd.1 (heq ▸ mem_map_of_mem hx)
    rw [if_neg hne]
  have hpre : pre.map (fun x => if x.sta = s.sta then f x else x) = pre.map id :=
    map_congr_left fun x hx => hother x (mem_append_left post hx)
  have hpost : post.map (fun x => if x.sta = s.sta then f x else x) = post.map id :=
    map_congr_left fun x hx => hother x (mem_append_right pre hx)
  rw [map_append, map_cons, if_pos rfl, hpre, hpost, List.map_id, List.map_id]

theorem TimersOk.receiveEapol (h : TimersOk d) (sta now : Nat) :
    TimersOk (d.receiveEapol sta now) := by
  unfold Daemon.receiveEapol
  split
  · next hany =>
    obtain ⟨s, hs, hcond⟩ := any_eq_true.mp hany
    simp only [Bool.and_eq_true, beq_iff_eq, isNone_iff_eq_none] at hcond
    obtain ⟨rfl, hnone⟩ := hcond
    obtain ⟨pre, post, hlist⟩ := append_of_mem hs
    have hmap := map_sta_eq (f := fun x => { x with eapolSm := some d.nextSm }) hlist h.sta_nodup
    have hadd := h.addSm now hlist hnone
    rw [← hmap] at hadd
    exact hadd
  · exact h

/-! ## Freeing -/

/-- No session timer is registered for the station. -/
def Disarmed (d : Daemon) (sta : Nat) : Prop := ¬ d.Registered (.apHandleSessionTimer sta)

theorem eq_of_eapolSm_eq {l : List StaInfo} (hnd : (l.filterMap StaInfo.eapolSm).Nodup)
    {s s' : StaInfo} {sm : Nat} (hs : s ∈ l) (hs' : s' ∈ l) (h : s.eapolSm = some sm)
    (h' : s'.eapolSm = some sm) : s = s' := by
  induction l with
  | nil => cases hs
  | cons x l ih =>
    have hrest : (l.filterMap StaInfo.eapolSm).Nodup := by
      exact hnd.sublist ((sublist_cons_self x l).filterMap _)
    have hhead : ∀ y ∈ l, x.eapolSm = some sm → y.eapolSm ≠ some sm := by
      intro y hy hx hysm
      rw [filterMap_cons_some hx, nodup_cons] at hnd
      exact hnd.1 (mem_filterMap.mpr ⟨y, hy, hysm⟩)
    rcases mem_cons.mp hs with heq | hin
    · rcases mem_cons.mp hs' with heq' | hin'
      · exact heq.trans heq'.symm
      · exact absurd h' (hhead s' hin' (heq ▸ h))
    · rcases mem_cons.mp hs' with heq' | hin'
      · exact absurd h (hhead s hin (heq' ▸ h'))
      · exact ih hrest hin hin'

theorem registered_apFreeSta {s : StaInfo} {hd : TimeoutHandler}
    (h : (d.apFreeSta s).Registered hd) :
    d.Registered hd ∧ ∀ sm, s.eapolSm = some sm → hd ≠ .eapolPortTimersTick sm := by
  unfold apFreeSta eapolSmFree at h
  cases hsm : s.eapolSm with
  | none =>
    rw [hsm] at h
    exact ⟨h, fun _ heq => by cases heq⟩
  | some sm =>
    rw [hsm] at h
    obtain ⟨hne, hreg⟩ := registered_cancel.mp h
    exact ⟨hreg, fun sm' heq => some.inj heq ▸ hne⟩

theorem apFreeSta_fields (s : StaInfo) :
    (d.apFreeSta s).staList = d.staList.erase s ∧ (d.apFreeSta s).nextSta = d.nextSta ∧
      (d.apFreeSta s).nextSm = d.nextSm ∧
      (d.apFreeSta s).liveSta = update d.liveSta s.sta false ∧
      ∀ sm, s.eapolSm ≠ some sm → (d.apFreeSta s).liveSm sm = d.liveSm sm := by
  unfold apFreeSta eapolSmFree
  cases s.eapolSm with
  | none => exact ⟨rfl, rfl, rfl, rfl, fun _ _ => rfl⟩
  | some sm' =>
    refine ⟨rfl, rfl, rfl, rfl, fun sm hne => ?_⟩
    exact update_of_ne (fun heq : sm = sm' => hne (by rw [heq])) false d.liveSm

variable (h : TimersOk d)

include h

/-- **Freeing a station** whose session timer is not registered. -/
theorem TimersOk.apFreeSta {s : StaInfo} (hs : s ∈ d.staList) (hdis : Disarmed d s.sta) :
    TimersOk (d.apFreeSta s) := by
  have hnd : d.staList.Nodup := h.sta_nodup.of_map
  obtain ⟨hlist, hsta, hsm, hliveSta, hliveSm⟩ := apFreeSta_fields (d := d) s
  have hmem : ∀ x, x ∈ (d.apFreeSta s).staList ↔ x ≠ s ∧ x ∈ d.staList := by
    intro x
    rw [hlist]
    exact hnd.mem_erase_iff
  have hsub : (d.apFreeSta s).staList.Sublist d.staList := hlist ▸ erase_sublist
  refine ⟨h.sta_nodup.sublist (hsub.map _), h.sm_nodup.sublist (hsub.filterMap _), ?_, ?_, ?_, ?_,
    ?_, ?_⟩
  · intro x hx
    rw [hsta]
    exact h.sta_lt x (hsub.subset hx)
  · intro x hx
    rw [hsm]
    exact h.sm_lt x (hsub.subset hx)
  · intro x hx
    obtain ⟨hne, hxd⟩ := (hmem x).mp hx
    have hother : x.sta ≠ s.sta := fun heq => hne (inj_on_of_nodup_map h.sta_nodup hxd hs heq)
    rw [hliveSta, update_of_ne hother]
    exact h.sta_live x hxd
  · intro x hx sm hxsm
    obtain ⟨hne, hxd⟩ := (hmem x).mp hx
    have hother : s.eapolSm ≠ some sm := fun heq =>
      hne (eq_of_eapolSm_eq h.sm_nodup hxd hs hxsm heq)
    rw [hliveSm sm hother]
    exact h.sm_live x hxd sm hxsm
  · intro sm hreg
    obtain ⟨hbefore, hgone⟩ := registered_apFreeSta hreg
    obtain ⟨x, hx, hxsm⟩ := h.tick sm hbefore
    refine ⟨x, (hmem x).mpr ⟨?_, hx⟩, hxsm⟩
    rintro rfl
    exact hgone sm hxsm rfl
  · intro sta hreg
    have hbefore := (registered_apFreeSta hreg).1
    obtain ⟨x, hx, hxsta⟩ := h.session sta hbefore
    refine ⟨x, (hmem x).mpr ⟨?_, hx⟩, hxsta⟩
    rintro rfl
    exact hdis (hxsta ▸ hbefore)

theorem TimersOk.freeFound {s : Option StaInfo}
    (hs : ∀ x, s = some x → x ∈ d.staList ∧ Disarmed d x.sta) : TimersOk (d.freeFound s) := by
  cases s with
  | none => exact h
  | some x => exact h.apFreeSta (hs x rfl).1 (hs x rfl).2

theorem TimersOk.foldl_apFreeSta {l : List StaInfo} (hnd : l.Nodup)
    (hl : ∀ s ∈ l, s ∈ d.staList ∧ Disarmed d s.sta) : TimersOk (l.foldl Daemon.apFreeSta d) := by
  induction l generalizing d with
  | nil => exact h
  | cons s l ih =>
    obtain ⟨hs, hdis⟩ := hl s mem_cons_self
    obtain ⟨hsl, hnd⟩ := nodup_cons.mp hnd
    refine ih (h.apFreeSta hs hdis) hnd fun x hx => ?_
    obtain ⟨hxd, hxdis⟩ := hl x (mem_cons_of_mem s hx)
    refine ⟨?_, fun hreg => hxdis (registered_apFreeSta hreg).1⟩
    rw [(apFreeSta_fields s).1]
    exact (mem_erase_of_ne (ne_of_mem_of_not_mem hx hsl)).mpr hxd

/-! ## Replies and expiry -/

theorem TimersOk.of_registered {ts : List EloopTimeout}
    (hts : ∀ hd, Registered { d with timeouts := ts } hd → d.Registered hd) :
    TimersOk { d with timeouts := ts } :=
  { h with
    tick := fun sm hreg => h.tick sm (hts _ hreg)
    session := fun sta hreg => h.session sta (hts _ hreg) }

theorem TimersOk.apStaSessionTimeout {s : StaInfo} (hs : s ∈ d.staList) (now : Nat)
    (t : BitVec 32) : TimersOk (d.apStaSessionTimeout s.sta now t) := by
  have hreg : ∀ hd, (d.apStaSessionTimeout s.sta now t).Registered hd →
      hd = .apHandleSessionTimer s.sta ∨ d.Registered hd := by
    intro hd hreg
    rcases registered_register.mp hreg with heq | hreg
    · exact .inl heq
    · exact .inr (registered_cancel.mp hreg).2
  exact { h with
    tick := fun sm hr => by
      rcases hreg _ hr with heq | hr
      · cases heq
      · exact h.tick sm hr
    session := fun sta hr => by
      rcases hreg _ hr with heq | hr
      · exact ⟨s, hs, (TimeoutHandler.apHandleSessionTimer.inj heq).symm⟩
      · exact h.session sta hr }

theorem TimersOk.receiveAuth (reply : RadiusReply) (now : Nat) :
    TimersOk (d.receiveAuth reply now) := by
  unfold Daemon.receiveAuth
  split
  · exact h
  · next s hs =>
    have hset := h.setRadiusIdentifier s.sta none
    -- the station is still there, only its identifier is gone
    have hmem : { s with radiusIdentifier := none } ∈ (d.setRadiusIdentifier s.sta none).staList :=
      mem_map.mpr ⟨s, (deliverTo_mem hs).1, if_pos rfl⟩
    dsimp only
    split
    · split
      · exact hset
      · split
        · exact hset.apStaSessionTimeout hmem now _
        · exact { hset with }
    · exact hset

theorem TimersOk.eloopExpire (now : Nat) : TimersOk (d.eloopExpire now) := by
  unfold Daemon.eloopExpire
  split
  · exact h
  · next t ts heq =>
    have hpop : TimersOk { d with timeouts := ts } := by
      apply h.of_registered
      rintro hd ⟨u, hu, rfl⟩
      exact ⟨u, heq ▸ mem_cons_of_mem t hu, rfl⟩
    split
    · dsimp only
      split
      · next sm hsm =>
        -- the tick comes back for the same machine
        apply h.of_registered
        intro hd hreg
        rcases registered_register.mp hreg with rfl | ⟨u, hu, rfl⟩
        · exact ⟨t, heq ▸ mem_cons_self, hsm⟩
        · exact ⟨u, heq ▸ mem_cons_of_mem t hu, rfl⟩
      · exact hpop
    · exact h

/-! ## Runs -/

/-- The event frees no station with a session timer. -/
def Careful (d : Daemon) : DaemonEvent → Prop
  | .replyDone => ∀ sta ∈ d.closing, Disarmed d sta
  | .disconnect addr => ∀ s ∈ d.staList, s.addr = addr → Disarmed d s.sta
  | .reload _ _ => ∀ s ∈ d.staList, Disarmed d s.sta
  | _ => True

instance instDecidableDisarmed (d : Daemon) (sta : Nat) : Decidable (Disarmed d sta) :=
  inferInstanceAs (Decidable (¬ ∃ t ∈ d.timeouts, t.handler = .apHandleSessionTimer sta))

instance instDecidableCareful (d : Daemon) : (e : DaemonEvent) → Decidable (Careful d e)
  | .replyDone => inferInstanceAs (Decidable (∀ sta ∈ d.closing, Disarmed d sta))
  | .disconnect _ => inferInstanceAs (Decidable (∀ s ∈ d.staList, _ → Disarmed d s.sta))
  | .reload _ _ => inferInstanceAs (Decidable (∀ s ∈ d.staList, Disarmed d s.sta))
  | .getSta .. => isTrue trivial
  | .receiveEapol .. => isTrue trivial
  | .request .. => isTrue trivial
  | .reply .. => isTrue trivial
  | .expire _ => isTrue trivial
  | .radiusTimer _ => isTrue trivial
  | .retryPrimary _ => isTrue trivial

/-- **Event lemma**: a careful event keeps every timeout on an object that exists. -/
theorem TimersOk.step {e : DaemonEvent} (hcare : Careful d e) {d' : Daemon}
    (hstep : d.step e = some d') : TimersOk d' := by
  cases e with
  | getSta addr apIdx memory smMemory now =>
    rw [← some.inj hstep]
    exact h.apGetSta addr apIdx memory smMemory now
  | receiveEapol sta now =>
    rw [← some.inj hstep]
    exact h.receiveEapol sta now
  | request sta built terminated choice now =>
    simp only [Daemon.step] at hstep
    split at hstep
    · rw [← some.inj hstep]
      exact h
    · next s _ =>
      obtain ⟨⟨radius, id⟩, _, heq⟩ := bind_eq_some_iff.mp hstep
      rw [← some.inj heq]
      have hrad : TimersOk { d with radius := radius } := { h with }
      exact hrad.setRadiusIdentifier s.sta (some id)
  | reply reply now =>
    obtain ⟨⟨radius, req⟩, _, heq⟩ := bind_eq_some_iff.mp hstep
    have hrad : TimersOk { d with radius := radius } := { h with }
    cases req with
    | none =>
      rw [← some.inj heq]
      exact hrad
    | some req =>
      rw [← some.inj heq]
      exact hrad.receiveAuth reply now
  | replyDone =>
    rw [← some.inj hstep]
    have hclear : TimersOk { d with closing := none } := { h with }
    apply hclear.freeFound
    intro x hx
    obtain ⟨sta, hclosing, hfind⟩ := bind_eq_some_iff.mp hx
    have hsta : x.sta = sta := by simpa using find?_some hfind
    exact ⟨mem_of_find?_eq_some hfind, hsta ▸ hcare sta hclosing⟩
  | disconnect addr =>
    rw [← some.inj hstep]
    apply h.freeFound
    intro x hx
    have hmem := mem_of_find?_eq_some hx
    exact ⟨hmem, hcare x hmem (by simpa using find?_some hx)⟩
  | reload set interval =>
    obtain ⟨radius, _, heq⟩ := bind_eq_some_iff.mp hstep
    rw [← some.inj heq]
    have hrad : TimersOk { d with
        radius := radius
        sessionTimeoutSet := set
        sessionTimeoutInterval := interval } := { h with }
    exact hrad.foldl_apFreeSta h.sta_nodup.of_map fun s hs => ⟨hs, hcare s hs⟩
  | expire now =>
    rw [← some.inj hstep]
    exact h.eloopExpire now
  | radiusTimer now =>
    obtain ⟨radius, _, heq⟩ := bind_eq_some_iff.mp hstep
    rw [← some.inj heq]
    exact { h with }
  | retryPrimary ready =>
    obtain ⟨radius, _, heq⟩ := bind_eq_some_iff.mp hstep
    rw [← some.inj heq]
    exact { h with }

end Daemon

theorem apdInit_timersOk (radius : RadiusClient) (set : Bool) (interval : BitVec 32) :
    (apdInit radius set interval).TimersOk where
  sta_nodup := nodup_nil
  sm_nodup := nodup_nil
  sta_lt _ hs := by cases hs
  sm_lt _ hs := by cases hs
  sta_live _ hs := by cases hs
  sm_live _ hs := by cases hs
  tick _ hreg := by
    obtain ⟨t, ht, _⟩ := hreg
    cases ht
  session _ hreg := by
    obtain ⟨t, ht, _⟩ := hreg
    cases ht

/-- **No timeout outlives its object**: in every run that frees no station with a session
    timer, every registered timeout names a machine or a station that has not been freed. -/
theorem timeouts_name_live_objects (ssidNum : Nat)
    (servers : Fin maxMbssidNum → List (List (BitVec 8))) (set : Bool) (interval : BitVec 32)
    (es : List DaemonEvent) (hrun : Along Daemon.stepM (Daemon.OnEvent Daemon.Careful)
      (some (apdStart ssidNum servers set interval)) es) :
    ∃ d, runEvents Daemon.stepM (some (apdStart ssidNum servers set interval)) es = some d ∧
      ∀ t ∈ d.timeouts, d.NamesLive t.handler := by
  have h0 : ∃ d, some (apdStart ssidNum servers set interval) = some d ∧ d.radius.Ok ∧ d.TimersOk :=
    ⟨_, rfl, (apdStart_owned ssidNum servers set interval).ok, apdInit_timersOk _ set interval⟩
  have hstep : ∀ s e, (∃ d : Daemon, s = some d ∧ d.radius.Ok ∧ d.TimersOk) →
      Daemon.OnEvent Daemon.Careful s e →
      ∃ d, Daemon.stepM s e = some d ∧ d.radius.Ok ∧ d.TimersOk := by
    rintro _ e ⟨d, rfl, hok, htimers⟩ hcare
    obtain ⟨d', hd', hok'⟩ := Daemon.step_ok hok e
    exact ⟨d', hd', hok', htimers.step (hcare d rfl) hd'⟩
  obtain ⟨d, hd, _, htimers⟩ := hrun.invariant hstep h0
  exact ⟨d, hd, fun t ht => htimers.namesLive ht⟩

/-! ### Two runs -/

/-- A station that never gets a session timer is accepted and removed; another one keeps
    its timer until it expires. -/
def carefulRun : List DaemonEvent :=
  [joins 1, joins 2, requests 0 0, accepts 0 none, .replyDone, requests 1 0, accepts 1 (some 60),
    .expire 60000000, .expire 60000000, .disconnect 2]

theorem timeouts_name_live_objects_careful :
    Along Daemon.stepM (Daemon.OnEvent Daemon.Careful) (some (apdStart 1 oneServer false 0))
        carefulRun ∧
      ∃ d, runEvents Daemon.stepM (some (apdStart 1 oneServer false 0)) carefulRun = some d ∧
        ∀ t ∈ d.timeouts, d.NamesLive t.handler :=
  have hrun : Along Daemon.stepM (Daemon.OnEvent Daemon.Careful)
      (some (apdStart 1 oneServer false 0)) carefulRun := by decide +kernel
  ⟨hrun, timeouts_name_live_objects 1 oneServer false 0 carefulRun hrun⟩

/-- A station is accepted for a minute, then again without a limit. -/
def twoAcceptsRun : List DaemonEvent :=
  [joins 1, requests 0 0, accepts 0 (some 60), requests 0 0, accepts 1 none, .replyDone]

theorem session_timer_outlives_station :
    ¬ ∀ (ssidNum : Nat) (servers : Fin maxMbssidNum → List (List (BitVec 8))) (set : Bool)
      (interval : BitVec 32) (es : List DaemonEvent),
      ∃ d, runEvents Daemon.stepM (some (apdStart ssidNum servers set interval)) es = some d ∧
        ∀ t ∈ d.timeouts, d.NamesLive t.handler := by
  intro hall
  obtain ⟨d, hd, hlive⟩ := hall 1 oneServer false 0 twoAcceptsRun
  have hleft : (runEvents Daemon.stepM (some (apdStart 1 oneServer false 0)) twoAcceptsRun).map
      (fun d : Daemon => (d.timeouts, d.liveSta 0)) =
        some ([⟨60000000, .apHandleSessionTimer 0⟩], false) := by decide +kernel
  rw [hd] at hleft
  obtain ⟨htimeouts, hfreed⟩ := Prod.mk.inj (Option.some.inj hleft)
  have hnamed : d.liveSta 0 = true :=
    hlive ⟨60000000, .apHandleSessionTimer 0⟩ (htimeouts ▸ List.mem_cons_self)
  exact Bool.false_ne_true (hfreed.symm.trans hnamed)

end RalinkSdk.Dot1x
