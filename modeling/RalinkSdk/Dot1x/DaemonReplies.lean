import RalinkSdk.Dot1x.Daemon
import RalinkSdk.Dot1x.RadiusPending

/-!
# Replies and the stations they reach

A reply is matched twice by its 8-bit identifier: with the pending request in the list of the
client, and with the station that holds the identifier in the list of stations.  A request
that is never answered leaves its identifier with its station, and after 256 further
requests another station is given the same one.
-/

namespace RalinkSdk.Dot1x

open Lib List Option

namespace Daemon

variable {d d' : Daemon}

/-! ## Events that leave the client alone -/

/-- Nobody has an identifier in `d'` that he does not have in `d`, and the client is
    the same. -/
structure HoldsLess (d d' : Daemon) : Prop where
  radius_eq : d'.radius = d.radius
  held : ∀ s ∈ d'.staList, ∀ id, s.radiusIdentifier = some id →
    ∃ s₀ ∈ d.staList, s₀.sta = s.sta ∧ s₀.radiusIdentifier = some id

theorem HoldsLess.of_subset (hr : d'.radius = d.radius)
    (hsub : ∀ s ∈ d'.staList, s ∈ d.staList) : HoldsLess d d' :=
  ⟨hr, fun s hs _ hid => ⟨s, hsub s hs, rfl, hid⟩⟩

theorem HoldsLess.trans {d'' : Daemon} (h : HoldsLess d d') (h' : HoldsLess d' d'') :
    HoldsLess d d'' := by
  refine ⟨h'.radius_eq.trans h.radius_eq, fun s hs id hid => ?_⟩
  obtain ⟨s₁, hs₁, hsta₁, hid₁⟩ := h'.held s hs id hid
  obtain ⟨s₀, hs₀, hsta₀, hid₀⟩ := h.held s₁ hs₁ id hid₁
  exact ⟨s₀, hs₀, hsta₀.trans hsta₁, hid₀⟩

theorem holdsLess_apGetSta (addr : BitVec 48) (apIdx : Fin maxMbssidNum) (memory smMemory : Bool)
    (now : Nat) : HoldsLess d (d.apGetSta addr apIdx memory smMemory now) := by
  unfold apGetSta
  split
  · exact .of_subset rfl fun _ hs => hs
  · split
    · exact .of_subset rfl fun _ hs => hs
    · dsimp only
      -- a new station holds no identifier
      split
      · refine ⟨rfl, fun s hs id hid => ?_⟩
        rcases mem_cons.mp hs with rfl | hs
        · cases hid
        · exact ⟨s, hs, rfl, hid⟩
      · refine ⟨rfl, fun s hs id hid => ?_⟩
        rcases mem_cons.mp hs with rfl | hs
        · cases hid
        · exact ⟨s, hs, rfl, hid⟩

theorem holdsLess_receiveEapol (sta now : Nat) : HoldsLess d (d.receiveEapol sta now) := by
  unfold receiveEapol
  split
  · refine ⟨rfl, fun s hs id hid => ?_⟩
    obtain ⟨s₀, hs₀, rfl⟩ := mem_map.mp hs
    refine ⟨s₀, hs₀, ?_⟩
    split at hid
    · next heq => exact ⟨by rw [if_pos heq], hid⟩
    · next heq => exact ⟨by rw [if_neg heq], hid⟩
  · exact .of_subset rfl fun _ hs => hs

theorem holdsLess_apFreeSta (s : StaInfo) : HoldsLess d (d.apFreeSta s) := by
  unfold apFreeSta eapolSmFree
  cases s.eapolSm with
  | none => exact .of_subset rfl fun _ hs => mem_of_mem_erase hs
  | some sm => exact .of_subset rfl fun _ hs => mem_of_mem_erase hs

theorem holdsLess_freeFound (s : Option StaInfo) : HoldsLess d (d.freeFound s) := by
  cases s with
  | none => exact .of_subset rfl fun _ hs => hs
  | some s => exact holdsLess_apFreeSta s

theorem holdsLess_apdFreeStas (l : List StaInfo) : HoldsLess d (l.foldl apFreeSta d) := by
  induction l generalizing d with
  | nil => exact .of_subset rfl fun _ hs => hs
  | cons s l ih => exact (holdsLess_apFreeSta s).trans ih

theorem holdsLess_eloopExpire (now : Nat) : HoldsLess d (d.eloopExpire now) := by
  unfold eloopExpire
  split
  · exact .of_subset rfl fun _ hs => hs
  · split
    · dsimp only
      split
      · exact .of_subset rfl fun _ hs => hs
      · exact .of_subset rfl fun _ hs => hs
    · exact .of_subset rfl fun _ hs => hs

theorem holdsLess_clear (sta : Nat) : HoldsLess d (d.setRadiusIdentifier sta none) := by
  refine ⟨rfl, fun s hs id hid => ?_⟩
  obtain ⟨s₀, hs₀, rfl⟩ := mem_map.mp hs
  split at hid
  · cases hid
  · next hne => exact ⟨s₀, hs₀, by rw [if_neg hne], hid⟩

theorem holdsLess_receiveAuth (reply : RadiusReply) (now : Nat) :
    HoldsLess d (d.receiveAuth reply now) := by
  unfold receiveAuth
  split
  · exact .of_subset rfl fun _ hs => hs
  · next s _ =>
    have hclear := holdsLess_clear (d := d) s.sta
    dsimp only
    split
    · split
      · exact hclear
      · split
        · exact ⟨hclear.radius_eq, hclear.held⟩
        · exact ⟨hclear.radius_eq, hclear.held⟩
    · exact hclear

/-! ## The invariant -/

/-- The list of the client is in order, and a station that holds the identifier of a pending
    request is the one that made it. -/
structure Owned (d : Daemon) : Prop where
  ok : d.radius.Ok
  owner : ∀ a ∈ d.radius.entries, ∀ m, d.radius.msgAt a = some m →
    ∀ s ∈ d.staList, s.radiusIdentifier = some m.identifier → s.sta = m.callingStation

theorem Owned.of_holdsLess (h : Owned d) (hless : HoldsLess d d') : Owned d' := by
  refine ⟨hless.radius_eq ▸ h.ok, ?_⟩
  rw [hless.radius_eq]
  intro a ha m hm s hs hid
  obtain ⟨s₀, hs₀, hsta, hid₀⟩ := hless.held s hs _ hid
  exact hsta.symm.trans (h.owner a ha m hm s₀ hs₀ hid₀)

theorem Owned.of_shrunk (h : Owned d) {radius : RadiusClient} (hs : d.radius.Shrunk radius) :
    Owned { d with radius := radius } := by
  refine ⟨hs.ok, fun a ha m hm => ?_⟩
  have hmsg := hs.kept.msgAt_eq a ha
  exact h.owner a (hs.kept.sublist.subset ha) m (hmsg.symm.trans hm)

/-- No other station holds the identifier that is handed out next. -/
def SoleHolder (d : Daemon) (sta : Nat) : Prop :=
  ∀ s ∈ d.staList, s.radiusIdentifier = some d.radius.nextRadiusIdentifier → s.sta = sta

/-- **What an event can do** to the pending requests and to the identifiers of the stations:
    a request is made, or some of both are given up. -/
theorem step_cases (h : d.radius.Ok) (e : DaemonEvent) :
    ∃ d', d.step e = some d' ∧
      ((∃ radius, d.radius.Shrunk radius ∧ HoldsLess { d with radius := radius } d') ∨
        ∃ built terminated choice now s radius,
          e = .request s.sta built terminated choice now ∧ s ∈ d.staList ∧
          d.radius.accessRequest s.sta built terminated choice s.apIdx now =
            some (radius, d.radius.nextRadiusIdentifier) ∧
          d' = { d with radius := radius }.setRadiusIdentifier s.sta
            (some d.radius.nextRadiusIdentifier)) := by
  have hsame := RadiusClient.Shrunk.refl h
  cases e with
  | getSta addr apIdx memory smMemory now =>
    exact ⟨_, rfl, .inl ⟨d.radius, hsame, holdsLess_apGetSta addr apIdx memory smMemory now⟩⟩
  | receiveEapol sta now =>
    exact ⟨_, rfl, .inl ⟨d.radius, hsame, holdsLess_receiveEapol sta now⟩⟩
  | request sta built terminated choice now =>
    cases hfind : d.staList.find? fun s => s.sta == sta with
    | none =>
      refine ⟨d, by simp [step, hfind], .inl ⟨d.radius, hsame, ?_⟩⟩
      exact .of_subset rfl fun _ hs => hs
    | some s =>
      obtain ⟨radius, heq, _⟩ := h.accessRequest s.sta built terminated choice s.apIdx now
      have hsta : s.sta = sta := by simpa using find?_some hfind
      refine ⟨_, ?_, .inr ⟨built, terminated, choice, now, s, radius, by rw [hsta],
        mem_of_find?_eq_some hfind, heq, rfl⟩⟩
      simp [step, hfind, encapsulateRadius, heq]
  | reply reply now =>
    rcases h.takeRequest .radiusAuth reply.identifier with hnone | ⟨radius, a, e, heq, hs, _⟩
    · refine ⟨d, by simp [step, radiusClientReceive, hnone], .inl ⟨d.radius, hsame, ?_⟩⟩
      exact .of_subset rfl fun _ hs => hs
    · refine ⟨{ d with radius := radius }.receiveAuth reply now, ?_,
        .inl ⟨radius, hs, holdsLess_receiveAuth reply now⟩⟩
      simp [step, radiusClientReceive, heq]
  | replyDone =>
    have hfree := holdsLess_freeFound (d := { d with closing := none })
      (d.closing.bind fun sta => d.staList.find? fun s => s.sta == sta)
    exact ⟨_, rfl, .inl ⟨d.radius, hsame, hfree.radius_eq, hfree.held⟩⟩
  | disconnect addr => exact ⟨_, rfl, .inl ⟨d.radius, hsame, holdsLess_freeFound _⟩⟩
  | reload set interval =>
    obtain ⟨radius, heq, hs⟩ := h.flush
    refine ⟨{ d with
        radius := radius
        sessionTimeoutSet := set
        sessionTimeoutInterval := interval }.apdFreeStas, by simp [step, heq],
      .inl ⟨radius, hs, ?_⟩⟩
    have hfree := holdsLess_apdFreeStas (d := { d with
        radius := radius
        sessionTimeoutSet := set
        sessionTimeoutInterval := interval }) d.staList
    exact ⟨hfree.radius_eq, hfree.held⟩
  | expire now => exact ⟨_, rfl, .inl ⟨d.radius, hsame, holdsLess_eloopExpire now⟩⟩
  | radiusTimer now =>
    obtain ⟨radius, heq, hs⟩ := h.timer now
    refine ⟨{ d with radius := radius }, by simp [step, heq], .inl ⟨radius, hs, ?_⟩⟩
    exact .of_subset rfl fun _ hs => hs
  | retryPrimary ready =>
    obtain ⟨radius, heq, hs⟩ := h.retryPrimary ready
    refine ⟨{ d with radius := radius }, by simp [step, heq], .inl ⟨radius, hs, ?_⟩⟩
    exact .of_subset rfl fun _ hs => hs

theorem step_ok (h : d.radius.Ok) (e : DaemonEvent) : ∃ d', d.step e = some d' ∧ d'.radius.Ok := by
  obtain ⟨d', hstep, ⟨radius, hs, hless⟩ | ⟨built, terminated, choice, now, s, radius, _, _, heq, rfl⟩⟩ :=
    step_cases h e
  · exact ⟨d', hstep, hless.radius_eq ▸ hs.ok⟩
  · obtain ⟨radius', heq', hok, _⟩ := h.accessRequest s.sta built terminated choice s.apIdx now
    obtain rfl : radius' = radius := (Prod.mk.inj (some.inj (heq'.symm.trans heq))).1
    exact ⟨_, hstep, hok⟩

/-! ## Requests -/

theorem Owned.request (h : Owned d) {s : StaInfo} (hsole : d.SoleHolder s.sta)
    {built terminated : Bool} {choice : Option Nat} {now : Int} {radius : RadiusClient}
    (heq : d.radius.accessRequest s.sta built terminated choice s.apIdx now =
      some (radius, d.radius.nextRadiusIdentifier)) :
    Owned ({ d with radius := radius }.setRadiusIdentifier s.sta
      (some d.radius.nextRadiusIdentifier)) := by
  obtain ⟨radius', heq', hok, hmsg, _⟩ :=
    h.ok.accessRequest s.sta built terminated choice s.apIdx now
  obtain rfl : radius' = radius := (Prod.mk.inj (some.inj (heq'.symm.trans heq))).1
  refine ⟨hok, fun a ha m hm x hx hid => ?_⟩
  -- who holds what after the request
  have hheld : x.sta = s.sta ∧ x.radiusIdentifier = some d.radius.nextRadiusIdentifier ∨
      x.sta ≠ s.sta ∧ x ∈ d.staList := by
    obtain ⟨x₀, hx₀, rfl⟩ := mem_map.mp hx
    by_cases hsta : x₀.sta = s.sta
    · left
      rw [if_pos hsta]
      exact ⟨hsta, rfl⟩
    · right
      rw [if_neg hsta]
      exact ⟨hsta, hx₀⟩
  have hident : radius'.identAt a = some m.identifier := by
    rw [RadiusClient.identAt]
    exact congrArg (Option.map RadiusMsg.identifier) hm
  rcases hmsg a ha with hnew | ⟨hold, hmsgEq, hne⟩
  · -- the new request: nobody else holds its identifier
    obtain rfl : m = ⟨d.radius.nextRadiusIdentifier, s.sta⟩ :=
      some.inj (hm.symm.trans hnew)
    rcases hheld with ⟨hsta, _⟩ | ⟨_, hxd⟩
    · exact hsta
    · exact hsole x hxd hid
  · -- an older one, with another identifier
    rcases hheld with ⟨_, hid'⟩ | ⟨_, hxd⟩
    · exact absurd (hident.trans (hid.symm.trans hid')) hne
    · exact h.owner a hold m (hmsgEq.symm.trans hm) x hxd hid

/-- An event that makes a request gives out no identifier that another station holds. -/
def Unshared (d : Daemon) : DaemonEvent → Prop
  | .request sta _ _ _ _ => d.SoleHolder sta
  | _ => True

instance instDecidableUnshared (d : Daemon) : (e : DaemonEvent) → Decidable (Unshared d e)
  | .request _ _ _ _ _ => inferInstanceAs (Decidable (∀ s ∈ d.staList, _ → _))
  | .getSta .. => isTrue trivial
  | .receiveEapol .. => isTrue trivial
  | .reply .. => isTrue trivial
  | .replyDone => isTrue trivial
  | .disconnect _ => isTrue trivial
  | .reload .. => isTrue trivial
  | .expire _ => isTrue trivial
  | .radiusTimer _ => isTrue trivial
  | .retryPrimary _ => isTrue trivial

/-- **Event lemma**: an event that shares no identifier keeps every pending request with the
    station that made it. -/
theorem Owned.step (h : Owned d) {e : DaemonEvent} (hsole : Unshared d e) :
    ∃ d', d.step e = some d' ∧ Owned d' := by
  obtain ⟨d', hstep, ⟨radius, hs, hless⟩ | ⟨built, terminated, choice, now, s, radius, rfl, _, heq, rfl⟩⟩ :=
    step_cases h.ok e
  · exact ⟨d', hstep, (h.of_shrunk hs).of_holdsLess hless⟩
  · exact ⟨_, hstep, h.request hsole heq⟩

/-! ## Runs -/

/-- A reply that is delivered reaches the station whose request it answers: `req` is the
    pending request that `Radius_client_receive` has matched. -/
def ReachesOwner (d : Daemon) : DaemonEvent → Prop
  | .reply reply _ => ∀ radius req s,
      d.radius.takeRequest .radiusAuth reply.identifier = some (radius, some req) →
      { d with radius := radius }.deliverTo reply = some s → req.msg.callingStation = s.sta
  | _ => True

theorem deliverTo_mem {reply : RadiusReply} {s : StaInfo} (h : d.deliverTo reply = some s) :
    s ∈ d.staList ∧ s.radiusIdentifier = some reply.identifier := by
  obtain ⟨hfind, _⟩ := filter_eq_some_iff.mp h
  have hid := find?_some hfind
  exact ⟨mem_of_find?_eq_some hfind, by simpa using hid⟩

theorem Owned.reachesOwner (h : Owned d) (e : DaemonEvent) : ReachesOwner d e := by
  cases e with
  | reply reply now =>
    intro radius req s htake hdeliver
    obtain ⟨hs, hid⟩ := deliverTo_mem hdeliver
    rcases h.ok.takeRequest .radiusAuth reply.identifier with
      hnone | ⟨radius', a, e, heq, _, ha, he, hident⟩
    · rw [hnone] at htake
      cases htake
    · obtain ⟨_, hreq⟩ := Prod.mk.inj (some.inj (heq.symm.trans htake))
      obtain rfl := some.inj hreq
      have hmsg : d.radius.msgAt a = some e.msg := by simp [RadiusClient.msgAt, he]
      exact (h.owner a ha e.msg hmsg s hs (hident ▸ hid)).symm
  | getSta _ _ _ _ _ => trivial
  | receiveEapol _ _ => trivial
  | request _ _ _ _ _ => trivial
  | replyDone => trivial
  | disconnect _ => trivial
  | reload _ _ => trivial
  | expire _ => trivial
  | radiusTimer _ => trivial
  | retryPrimary _ => trivial

end Daemon

def apdStart (ssidNum : Nat) (servers : Fin maxMbssidNum → List (List (BitVec 8))) (set : Bool)
    (interval : BitVec 32) : Daemon :=
  apdInit (radiusClientInit ssidNum servers) set interval

theorem apdStart_owned (ssidNum : Nat) (servers : Fin maxMbssidNum → List (List (BitVec 8)))
    (set : Bool) (interval : BitVec 32) : (apdStart ssidNum servers set interval).Owned := by
  refine ⟨(radiusClientInit_ok ssidNum servers).1, fun _ _ _ _ s hs => ?_⟩
  cases hs

/-- **Replies reach their station**: in every run in which no identifier is handed out that
    another station still holds, every reply that is delivered reaches the station whose
    pending request it was matched with. -/
theorem replies_reach_owner (ssidNum : Nat)
    (servers : Fin maxMbssidNum → List (List (BitVec 8))) (set : Bool) (interval : BitVec 32)
    (es : List DaemonEvent) (hrun : Along Daemon.stepM (Daemon.OnEvent Daemon.Unshared)
      (some (apdStart ssidNum servers set interval)) es) :
    (∃ d, runEvents Daemon.stepM (some (apdStart ssidNum servers set interval)) es = some d) ∧
      Along Daemon.stepM (Daemon.OnEvent Daemon.ReachesOwner)
        (some (apdStart ssidNum servers set interval)) es := by
  have h0 : ∃ d, some (apdStart ssidNum servers set interval) = some d ∧ d.Owned :=
    ⟨_, rfl, apdStart_owned ssidNum servers set interval⟩
  have hstep : ∀ s e, (∃ d, s = some d ∧ Daemon.Owned d) → Daemon.OnEvent Daemon.Unshared s e →
      ∃ d, Daemon.stepM s e = some d ∧ d.Owned := by
    rintro _ e ⟨d, rfl, howned⟩ hsole
    exact howned.step (hsole d rfl)
  constructor
  · obtain ⟨d, hd, _⟩ := hrun.invariant hstep h0
    exact ⟨d, hd⟩
  · refine hrun.of_invariant hstep ?_ h0
    rintro _ e ⟨d, rfl, howned⟩ _ d' heq
    obtain rfl := Option.some.inj heq
    exact howned.reachesOwner e

/-! ### Two runs -/

/-- A new station at time 0. -/
def joins (addr : BitVec 48) : DaemonEvent := .getSta addr 0 true true 0

/-- A request at time 0, whose entry is allocated at `a`. -/
def requests (sta a : Nat) : DaemonEvent := .request sta true false (some a) 0

def accepts (identifier : BitVec 8) (sessionTimeout : Option (BitVec 32)) : DaemonEvent :=
  .reply ⟨identifier, .accessAccept, false, true, sessionTimeout, false⟩ 0

/-- Two stations ask and are answered. -/
def answeredRun : List DaemonEvent :=
  [joins 1, joins 2, requests 0 0, requests 1 1, accepts 1 none, accepts 0 none, requests 1 2]

theorem replies_reach_owner_answered :
    Along Daemon.stepM (Daemon.OnEvent Daemon.Unshared) (some (apdStart 1 oneServer false 0))
        answeredRun ∧
      Along Daemon.stepM (Daemon.OnEvent Daemon.ReachesOwner)
        (some (apdStart 1 oneServer false 0)) answeredRun :=
  have hrun : Along Daemon.stepM (Daemon.OnEvent Daemon.Unshared)
      (some (apdStart 1 oneServer false 0)) answeredRun := by decide +kernel
  ⟨hrun, (replies_reach_owner 1 oneServer false 0 answeredRun hrun).2⟩

/-- Station 1 asks and gets no answer; station 0 asks 256 times, the last time with the
    identifier that station 1 still holds. -/
def wrapRun : List DaemonEvent :=
  [joins 1, joins 2, requests 1 0] ++ (range 255).flatMap
    (fun k => [requests 0 1, accepts (BitVec.ofNat 8 (k + 1)) (some 60)]) ++ [requests 0 1]

theorem wrapRun_delivers :
    (runEvents Daemon.stepM (some (apdStart 1 oneServer false 0)) wrapRun).bind (fun d : Daemon =>
      (d.radius.takeRequest .radiusAuth 0).bind fun r =>
        r.2.bind fun req => ({ d with radius := r.1 }.deliverTo
          ⟨0, .accessAccept, false, true, none, false⟩).map fun s : StaInfo =>
            (req.msg.callingStation, s.sta)) = some (0, 1) := by decide +kernel

theorem reply_reaches_other_station :
    ¬ ∀ (ssidNum : Nat) (servers : Fin maxMbssidNum → List (List (BitVec 8))) (set : Bool)
      (interval : BitVec 32) (es : List DaemonEvent),
      Along Daemon.stepM (Daemon.OnEvent Daemon.ReachesOwner)
        (some (apdStart ssidNum servers set interval)) es := by
  intro hall
  have hlast := (hall 1 oneServer false 0 (wrapRun ++ [accepts 0 none])).last
  have hdeliver := wrapRun_delivers
  obtain ⟨d, hd, hrest⟩ := Option.bind_eq_some_iff.mp hdeliver
  obtain ⟨⟨radius, found⟩, htake, hrest⟩ := Option.bind_eq_some_iff.mp hrest
  obtain ⟨req, hreq, hrest⟩ := Option.bind_eq_some_iff.mp hrest
  obtain ⟨s, hs, hpair⟩ := Option.map_eq_some_iff.mp hrest
  have hfound : found = some req := hreq
  rw [hfound] at htake
  have hsame := hlast d hd radius req s htake hs
  obtain ⟨hcalling, hsta⟩ := Prod.mk.inj hpair
  rw [hcalling, hsta] at hsame
  cases hsame

end RalinkSdk.Dot1x
