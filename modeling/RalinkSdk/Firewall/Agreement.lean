import RalinkSdk.Firewall.Handlers

/-!
# Firewall settings of the web server: the chains and the stored settings

A handler is right if the chain it leaves is the one `firewall_init` would make of the settings it
leaves.  Two handlers are not:

- Both port-forwarding lists share the chain `port_forward`.  The handlers of either list flush
  it and install the rules of their own list only.
- `iptablesWebsFilterRun`, and with it `firewall_init`, does not look at `websURLFilterEnabled`.
  `websURLBasicSettings` and `websURLFilter` do, and leave the chain `web_filter` empty when URL
  filtering is switched off.
-/

namespace RalinkSdk.Firewall

open Lib Function Option

variable {env : Env} {s : Box} {nv nv' : Nvram}

/-! ## The rules of the settings -/

def portForwardRules (env : Env) (nv : Nvram) : List Str :=
  if atoi (nv .portForwardEnable) = 0 then []
  else
    match env.wanIp with
    | none => []
    | some wanIp =>
      ((records (nv .portForwardRules) 256).flatMap (portForwardCmds wanIp)).filter env.iptables

def singlePortForwardRules (env : Env) (nv : Nvram) : List Str :=
  if atoi (nv .singlePortForwardEnable) = 0 then []
  else
    ((records (nv .singlePortForwardRules) 256).flatMap
      (singlePortForwardCmds env.wanName)).filter env.iptables

/-- The commands that block contents, URLs and hosts. -/
def webFilterCmds (nv : Nvram) : List Str :=
  contentCmds nv ++ (filterEntries (nv .websURLFilters)).map urlCmd ++
    (filterEntries (nv .websHostFilters)).map hostCmd

def webFilterRules (env : Env) (nv : Nvram) : List Str := (webFilterCmds nv).filter env.iptables

/-- A chain with rules behind those it has. -/
def Box.append (s : Box) (chain : Chain) (rules : List Str) : Box :=
  { s with chains := update s.chains chain (s.chains chain ++ rules) }

@[simp] theorem Box.append_nvram (s : Box) (chain : Chain) (rules : List Str) :
    (s.append chain rules).nvram = s.nvram := rfl

@[simp] theorem Box.append_chain (s : Box) (chain : Chain) (rules : List Str) :
    (s.append chain rules).chains chain = s.chains chain ++ rules := by
  simp [Box.append]

theorem Box.append_other (s : Box) {chain other : Chain} (h : other ≠ chain) (rules : List Str) :
    (s.append chain rules).chains other = s.chains other := by
  simp [Box.append, h]

@[simp] theorem Box.append_nil (s : Box) (chain : Chain) : s.append chain [] = s := by
  simp [Box.append]

@[simp] theorem flush_nvram (chain : Chain) (s : Box) : (flush chain s).nvram = s.nvram := rfl

@[simp] theorem flush_chain (chain : Chain) (s : Box) : (flush chain s).chains chain = [] := by
  simp [flush]

theorem flush_other {chain other : Chain} (h : other ≠ chain) (s : Box) :
    (flush chain s).chains other = s.chains other := by
  simp [flush, h]

theorem foldl_doSystems (chain : Chain) (f : Str → List Str) (recs : List Str) (s : Box) :
    recs.foldl (fun s rec => doSystems env chain s (f rec)) s =
      s.append chain ((recs.flatMap f).filter env.iptables) := by
  have hflat := @List.foldl_flatMap _ _ _ f (doSystem env chain) recs s
  have hrun := doSystems_eq env chain s (recs.flatMap f)
  exact hflat.symm.trans hrun

theorem iptablesPortForwardRun_eq (s : Box) :
    iptablesPortForwardRun env s = s.append .portForward (portForwardRules env s.nvram) := by
  rw [iptablesPortForwardRun, portForwardRules]
  split
  · simp
  · cases env.wanIp with
    | none => simp
    | some wanIp => exact foldl_doSystems _ _ _ _

theorem iptablesSinglePortForwardRun_eq (s : Box) : iptablesSinglePortForwardRun env s =
      s.append .portForward (singlePortForwardRules env s.nvram) := by
  rw [iptablesSinglePortForwardRun, singlePortForwardRules]
  split
  · simp
  · exact foldl_doSystems _ _ _ _

theorem iptablesWebsFilterRun_eq (s : Box) :
    iptablesWebsFilterRun env s = s.append .webFilter (webFilterRules env s.nvram) := by
  simp only [iptablesWebsFilterRun, doSystems_eq]
  simp [Box.append, webFilterRules, webFilterCmds]

@[simp] theorem firewallInit_nvram (s : Box) : (firewallInit env s).nvram = s.nvram := by
  simp [firewallInit, iptablesPortForwardRun_eq, iptablesSinglePortForwardRun_eq,
    iptablesWebsFilterRun_eq]

/-- **Boot**: the rules of the first list, then those of the second. -/
theorem firewallInit_portForward (s : Box) : (firewallInit env s).chains .portForward =
      portForwardRules env s.nvram ++ singlePortForwardRules env s.nvram := by
  simp [firewallInit, iptablesPortForwardRun_eq, iptablesSinglePortForwardRun_eq,
    iptablesWebsFilterRun_eq]

theorem firewallInit_webFilter (s : Box) :
    (firewallInit env s).chains .webFilter = webFilterRules env s.nvram := by
  simp [firewallInit, iptablesPortForwardRun_eq, iptablesSinglePortForwardRun_eq,
    iptablesWebsFilterRun_eq, Box.append_other, flush_other]

/-- The chain is the one that `firewall_init` makes of the settings. -/
def Agrees (env : Env) (chain : Chain) (s : Box) : Prop :=
  s.chains chain = (firewallInit env s).chains chain

instance (env : Env) (chain : Chain) (s : Box) : Decidable (Agrees env chain s) :=
  inferInstanceAs (Decidable (_ = _))

theorem agrees_portForward : Agrees env .portForward s ↔ s.chains .portForward =
      portForwardRules env s.nvram ++ singlePortForwardRules env s.nvram := by
  rw [Agrees, firewallInit_portForward]

theorem agrees_webFilter :
    Agrees env .webFilter s ↔ s.chains .webFilter = webFilterRules env s.nvram := by
  rw [Agrees, firewallInit_webFilter]

theorem agrees_firewallInit (chain : Chain) (s : Box) : Agrees env chain (firewallInit env s) := by
  cases chain with
  | portForward => rw [agrees_portForward, firewallInit_portForward, firewallInit_nvram]
  | webFilter => rw [agrees_webFilter, firewallInit_webFilter, firewallInit_nvram]

/-! ## Settings that make no rule -/

/-- No record of `PortForwardRules` makes a rule. -/
def NoPortForward (env : Env) (nv : Nvram) : Prop :=
  atoi (nv .portForwardEnable) = 0 ∨
    ∀ wanIp ∈ env.wanIp, ∀ rec ∈ records (nv .portForwardRules) 256,
      ∀ cmd ∈ portForwardCmds wanIp rec, env.iptables cmd = false

/-- No record of `SinglePortForwardRules` makes a rule. -/
def NoSinglePortForward (env : Env) (nv : Nvram) : Prop :=
  atoi (nv .singlePortForwardEnable) = 0 ∨
    ∀ rec ∈ records (nv .singlePortForwardRules) 256,
      ∀ cmd ∈ singlePortForwardCmds env.wanName rec, env.iptables cmd = false

/-- No content, URL or host setting makes a rule. -/
def NoWebFilter (env : Env) (nv : Nvram) : Prop :=
  ∀ cmd ∈ webFilterCmds nv, env.iptables cmd = false

theorem flatMap_filter_eq_nil {recs : List Str} {f : Str → List Str} :
    (recs.flatMap f).filter env.iptables = [] ↔
      ∀ rec ∈ recs, ∀ cmd ∈ f rec, env.iptables cmd = false := by
  simp only [List.filter_eq_nil_iff, List.mem_flatMap, Bool.not_eq_true]
  exact ⟨fun h rec hrec cmd hcmd => h cmd ⟨rec, hrec, hcmd⟩,
    fun h cmd ⟨rec, hrec, hcmd⟩ => h rec hrec cmd hcmd⟩

theorem portForwardRules_eq_nil : portForwardRules env nv = [] ↔ NoPortForward env nv := by
  rw [portForwardRules, NoPortForward]
  split
  · next h => simp [h]
  · next h =>
    cases env.wanIp with
    | none => simp
    | some wanIp =>
      rw [flatMap_filter_eq_nil]
      simp [h]

theorem singlePortForwardRules_eq_nil :
    singlePortForwardRules env nv = [] ↔ NoSinglePortForward env nv := by
  rw [singlePortForwardRules, NoSinglePortForward]
  split
  · next h => simp [h]
  · next h =>
    rw [flatMap_filter_eq_nil]
    simp [h]

theorem webFilterRules_eq_nil : webFilterRules env nv = [] ↔ NoWebFilter env nv := by
  simp [webFilterRules, NoWebFilter]

/-! ## The chain `port_forward` -/

/-- The two lists that share the chain. -/
inductive ForwardList where
  | range
  | single
deriving DecidableEq

/-- The list a request restarts the chain for, if it does. -/
def restarts (s : Box) : Request → Option ForwardList
  | .portForward form => if (portForwardRecord form).isSome then some .range else none
  | .portForwardDelete form =>
    if (deletedRules form (s.nvram .portForwardRules)).isSome ∧
      atoi (s.nvram .portForwardEnable) ≠ 0 then some .range else none
  | .portForwardBasicSettings _ => some .range
  | .singlePortForward form => if (singlePortForwardRecord form).isSome then some .single else none
  | .singlePortForwardDelete form =>
    if (deletedRules form (s.nvram .singlePortForwardRules)).isSome ∧
      atoi (s.nvram .singlePortForwardEnable) ≠ 0 then some .single else none
  | .singlePortForwardBasicSettings _ => some .single
  | _ => none

/-- When the chain is restarted for one list, the other makes no rule. -/
def OtherListEmpty (env : Env) (s : Box) (r : Request) : Prop :=
  match restarts s r with
  | none => True
  | some .range => NoSinglePortForward env s.nvram
  | some .single => NoPortForward env s.nvram

/-- What a request does to the chain: nothing, or a restart for one of the lists.  The settings of
    the other list stay. -/
inductive ForwardStep (env : Env) (s s' : Box) : Option ForwardList → Prop
  | untouched (hchain : s'.chains .portForward = s.chains .portForward)
      (hrange : portForwardRules env s'.nvram = portForwardRules env s.nvram)
      (hsingle : singlePortForwardRules env s'.nvram = singlePortForwardRules env s.nvram) :
      ForwardStep env s s' none
  | range (hchain : s'.chains .portForward = portForwardRules env s'.nvram)
      (hsingle : singlePortForwardRules env s'.nvram = singlePortForwardRules env s.nvram) :
      ForwardStep env s s' (some .range)
  | single (hchain : s'.chains .portForward = singlePortForwardRules env s'.nvram)
      (hrange : portForwardRules env s'.nvram = portForwardRules env s.nvram) :
      ForwardStep env s s' (some .single)

theorem atoi_zero : atoi ['0'] = 0 := by decide

theorem portForwardRules_congr (henable : nv' .portForwardEnable = nv .portForwardEnable)
    (hrules : nv' .portForwardRules = nv .portForwardRules) :
    portForwardRules env nv' = portForwardRules env nv := by
  simp only [portForwardRules, henable, hrules]

theorem singlePortForwardRules_congr
    (henable : nv' .singlePortForwardEnable = nv .singlePortForwardEnable)
    (hrules : nv' .singlePortForwardRules = nv .singlePortForwardRules) :
    singlePortForwardRules env nv' = singlePortForwardRules env nv := by
  simp only [singlePortForwardRules, henable, hrules]

theorem portForwardRules_disabled (h : atoi (nv .portForwardEnable) = 0) :
    portForwardRules env nv = [] := by
  rw [portForwardRules, if_pos h]

theorem singlePortForwardRules_disabled (h : atoi (nv .singlePortForwardEnable) = 0) :
    singlePortForwardRules env nv = [] := by
  rw [singlePortForwardRules, if_pos h]

theorem ForwardStep.of_range (hother : ∀ key, key ≠ .portForwardEnable → key ≠ .portForwardRules →
    nv key = s.nvram key) :
    ForwardStep env s (iptablesPortForwardRun env (flush .portForward { s with nvram := nv }))
      (some .range) := by
  rw [iptablesPortForwardRun_eq]
  apply ForwardStep.range
  · simp
  · exact singlePortForwardRules_congr (hother _ (by decide) (by decide))
      (hother _ (by decide) (by decide))

theorem ForwardStep.of_single (hother : ∀ key, key ≠ .singlePortForwardEnable →
    key ≠ .singlePortForwardRules → nv key = s.nvram key) :
    ForwardStep env s (iptablesSinglePortForwardRun env (flush .portForward { s with nvram := nv }))
      (some .single) := by
  rw [iptablesSinglePortForwardRun_eq]
  apply ForwardStep.single
  · simp
  · exact portForwardRules_congr (hother _ (by decide) (by decide))
      (hother _ (by decide) (by decide))

theorem ForwardStep.of_webFilter (s : Box) (nv : Nvram)
    (hsame : ∀ key ∈ [Key.portForwardEnable, .portForwardRules, .singlePortForwardEnable,
      .singlePortForwardRules], nv key = s.nvram key) :
    ForwardStep env s (iptablesWebsFilterRun env (flush .webFilter { s with nvram := nv })) none ∧
      ForwardStep env s (flush .webFilter { s with nvram := nv }) none := by
  have hrange : portForwardRules env nv = portForwardRules env s.nvram :=
    portForwardRules_congr (hsame _ (by decide)) (hsame _ (by decide))
  have hsingle : singlePortForwardRules env nv = singlePortForwardRules env s.nvram :=
    singlePortForwardRules_congr (hsame _ (by decide)) (hsame _ (by decide))
  constructor
  · rw [iptablesWebsFilterRun_eq]
    apply ForwardStep.untouched
    · rw [Box.append_other _ (by decide), flush_other (by decide)]
    · exact hrange
    · exact hsingle
  · exact ForwardStep.untouched (flush_other (by decide) _) hrange hsingle

theorem ForwardStep.refl (s : Box) : ForwardStep env s s none := .untouched rfl rfl rfl

theorem forwardStep_portForward (form : ForwardForm) (s : Box) :
    ForwardStep env s (portForward env form s) (restarts s (.portForward form)) := by
  rw [portForward, restarts]
  cases portForwardRecord form with
  | none => exact ForwardStep.refl s
  | some rec =>
    apply ForwardStep.of_range
    intro key henable hrules
    simp [nvramSet, henable, hrules]

theorem forwardStep_portForwardDelete (form : DeleteForm) (s : Box) :
    ForwardStep env s (portForwardDelete env form s) (restarts s (.portForwardDelete form)) := by
  simp only [portForwardDelete, restarts]
  cases deletedRules form (s.nvram .portForwardRules) with
  | none => exact .refl s
  | some rules =>
    have hkey : nvramSet s.nvram .portForwardRules rules .portForwardEnable =
        s.nvram .portForwardEnable := by simp [nvramSet]
    by_cases henable : atoi (s.nvram .portForwardEnable) = 0
    · -- forwarding is off: the list changes, its rules are none before and after
      simp only [hkey, henable, if_true, ne_eq, not_true, and_false, if_false]
      apply ForwardStep.untouched
      · rfl
      · rw [portForwardRules_disabled henable, portForwardRules_disabled (hkey ▸ henable)]
      · exact singlePortForwardRules_congr (by simp [nvramSet]) (by simp [nvramSet])
    · simp only [hkey, henable, if_false, isSome_some, ne_eq, not_false_eq_true, and_self,
        if_true]
      apply ForwardStep.of_range
      intro key _ hrules
      simp [nvramSet, hrules]

theorem forwardStep_portForwardBasicSettings (enable : Str) (s : Box) :
    ForwardStep env s (portForwardBasicSettings env enable s) (some .range) := by
  rw [portForwardBasicSettings]
  split
  · -- the flush alone is the restart of a list that is off
    apply ForwardStep.range
    · rw [portForwardRules_disabled (by simp [nvramSet, atoi_zero])]
      simp
    · exact singlePortForwardRules_congr (by simp [nvramSet]) (by simp [nvramSet])
  · apply ForwardStep.of_range
    intro key henable _
    simp [nvramSet, henable]

theorem forwardStep_singlePortForward (form : ForwardForm) (s : Box) :
    ForwardStep env s (singlePortForward env form s) (restarts s (.singlePortForward form)) := by
  rw [singlePortForward, restarts]
  cases singlePortForwardRecord form with
  | none => exact ForwardStep.refl s
  | some rec =>
    apply ForwardStep.of_single
    intro key henable hrules
    simp [nvramSet, henable, hrules]

theorem forwardStep_singlePortForwardDelete (form : DeleteForm) (s : Box) :
    ForwardStep env s (singlePortForwardDelete env form s)
      (restarts s (.singlePortForwardDelete form)) := by
  simp only [singlePortForwardDelete, restarts]
  cases deletedRules form (s.nvram .singlePortForwardRules) with
  | none => exact .refl s
  | some rules =>
    have hkey : nvramSet s.nvram .singlePortForwardRules rules .singlePortForwardEnable =
        s.nvram .singlePortForwardEnable := by simp [nvramSet]
    by_cases henable : atoi (s.nvram .singlePortForwardEnable) = 0
    · simp only [hkey, henable, if_true, ne_eq, not_true, and_false, if_false]
      apply ForwardStep.untouched
      · rfl
      · exact portForwardRules_congr (by simp [nvramSet]) (by simp [nvramSet])
      · rw [singlePortForwardRules_disabled henable,
          singlePortForwardRules_disabled (hkey ▸ henable)]
    · simp only [hkey, henable, if_false, isSome_some, ne_eq, not_false_eq_true, and_self,
        if_true]
      apply ForwardStep.of_single
      intro key _ hrules
      simp [nvramSet, hrules]

theorem forwardStep_singlePortForwardBasicSettings (enable : Str) (s : Box) :
    ForwardStep env s (singlePortForwardBasicSettings env enable s) (some .single) := by
  rw [singlePortForwardBasicSettings]
  split
  · apply ForwardStep.single
    · rw [singlePortForwardRules_disabled (by simp [nvramSet, atoi_zero])]
      simp
    · exact portForwardRules_congr (by simp [nvramSet]) (by simp [nvramSet])
  · apply ForwardStep.of_single
    intro key henable _
    simp [nvramSet, henable]

theorem forwardStep_websFilterDelete {key : Key} (hkey : key ∉ [Key.portForwardEnable,
      .portForwardRules, .singlePortForwardEnable, .singlePortForwardRules]) (form : DeleteForm)
    (s : Box) : ForwardStep env s (websFilterDelete env key form s) none := by
  rw [websFilterDelete]
  cases deletedRules form (s.nvram key) with
  | none => exact ForwardStep.refl s
  | some filters =>
    apply (ForwardStep.of_webFilter s _ _).1
    intro other hmem
    have hne : other ≠ key := by
      intro heq
      rw [heq] at hmem
      exact hkey hmem
    exact update_of_ne hne _ _

/-- **One request and the chain.** -/
theorem forwardStep_handle (s : Box) (r : Request) :
    ForwardStep env s (handle env s r) (restarts s r) := by
  cases r with
  | portForward form => exact forwardStep_portForward form s
  | portForwardDelete form => exact forwardStep_portForwardDelete form s
  | portForwardBasicSettings enable => exact forwardStep_portForwardBasicSettings enable s
  | singlePortForward form => exact forwardStep_singlePortForward form s
  | singlePortForwardDelete form => exact forwardStep_singlePortForwardDelete form s
  | singlePortForwardBasicSettings enable =>
    exact forwardStep_singlePortForwardBasicSettings enable s
  | webContentFilter form =>
    simp only [handle, webContentFilter, restarts]
    exact (ForwardStep.of_webFilter s _ (by simp [nvramSet])).1
  | websURLBasicSettings enable =>
    obtain ⟨hrun, hflush⟩ : _ ∧ ForwardStep env _ _ _ := ForwardStep.of_webFilter s
      (nvramSet s.nvram .websURLFilterEnabled (flagText enable)) (by simp [nvramSet])
    simp only [handle, websURLBasicSettings, restarts]
    split
    · exact hflush
    · exact hrun
  | websURLFilter form =>
    simp only [handle, websURLFilter, restarts]
    cases addedFilter form (s.nvram .websURLFilters) with
    | none => exact .refl s
    | some filters =>
      obtain ⟨hrun, hflush⟩ : _ ∧ ForwardStep env _ _ _ := ForwardStep.of_webFilter s
        (nvramSet s.nvram .websURLFilters filters) (by simp [nvramSet])
      simp only
      split
      · exact hflush
      · exact hrun
  | websURLFilterDelete form => exact forwardStep_websFilterDelete (by decide) form s
  | websHostFilter form =>
    simp only [handle, websHostFilter, restarts]
    cases addedFilter form (s.nvram .websHostFilters) with
    | none => exact .refl s
    | some filters => exact (ForwardStep.of_webFilter s _ (by simp [nvramSet])).1
  | websHostFilterDelete form => exact forwardStep_websFilterDelete (by decide) form s

theorem agrees_handle_iff (h : Agrees env .portForward s) (r : Request) :
    Agrees env .portForward (handle env s r) ↔ OtherListEmpty env s r := by
  rw [agrees_portForward] at h ⊢
  rw [OtherListEmpty]
  have hstep : ForwardStep env s _ _ := forwardStep_handle s r
  cases hrestart : restarts s r with
  | none =>
    rw [hrestart] at hstep
    obtain ⟨hchain, hrange, hsingle⟩ := hstep
    simp [hchain, hrange, hsingle, h]
  | some list =>
    rw [hrestart] at hstep
    cases list with
    | range =>
      -- the chain has the rules of the first list only
      obtain _ | ⟨hchain, hsingle⟩ := hstep
      rw [hchain, hsingle, ← singlePortForwardRules_eq_nil]
      exact List.self_eq_append_right
    | single =>
      -- and here those of the second only
      cases hstep with
      | single hchain hrange =>
        rw [hchain, hrange, ← portForwardRules_eq_nil]
        exact List.self_eq_append_left

/-- **Port forwarding and the stored settings**: over any requests after boot, the chain agrees
    with the settings in every state exactly if the other list makes no rule whenever the chain is
    restarted for one. -/
theorem port_forward_run (env : Env) (s : Box) (reqs : List Request) :
    Agrees env .portForward (firewallInit env s) ∧
      (Along (handle env) (fun s r => Agrees env .portForward (handle env s r))
          (firewallInit env s) reqs ↔
        Along (handle env) (OtherListEmpty env) (firewallInit env s) reqs) := by
  refine ⟨agrees_firewallInit _ s, ?_⟩
  have hkept : ∀ s r, Agrees env .portForward s → OtherListEmpty env s r →
      Agrees env .portForward (handle env s r) := fun s r hInv hG =>
    (agrees_handle_iff hInv r).mpr hG
  exact along_iff_of_invariant reqs hkept (fun s r hInv => agrees_handle_iff hInv r)
    (agrees_firewallInit _ s)

/-- A WAN address, and an `iptables` that takes every command. -/
def sampleEnv : Env where
  wanName := "eth2.2".toList
  wanIp := some "10.0.0.7".toList
  iptables := fun _ => true

/-- Nothing is stored. -/
def blankBox : Box := ⟨fun _ => [], fun _ => []⟩

/-- Port 80 is forwarded to one host; then port 8080 to another, from the other page. -/
def sampleForwards : List Request :=
  [.portForward ⟨"192.168.1.2".toList, "80".toList, [], "TCP".toList, []⟩,
   .singlePortForward ⟨"192.168.1.3".toList, "8080".toList, "80".toList, "TCP".toList, []⟩]

/-- The second request takes the rule of the first away. -/
theorem single_forward_drops_range :
    ¬ Along (handle sampleEnv) (fun s r => Agrees sampleEnv .portForward (handle sampleEnv s r))
      (firewallInit sampleEnv blankBox) sampleForwards := by
  decide +kernel

/-! ## The chain `web_filter` -/

/-- When a request leaves the chain empty because URL filtering is off, no setting makes a rule. -/
def OffWithoutRules (env : Env) (s : Box) : Request → Prop
  | .websURLBasicSettings enable => atoi enable = 0 → NoWebFilter env s.nvram
  | .websURLFilter form =>
    ∀ filters ∈ addedFilter form (s.nvram .websURLFilters),
      atoi (s.nvram .websURLFilterEnabled) = 0 →
        NoWebFilter env (nvramSet s.nvram .websURLFilters filters)
  | _ => True

theorem agrees_restart (s : Box) :
    Agrees env .webFilter (iptablesWebsFilterRun env (flush .webFilter s)) := by
  rw [agrees_webFilter, iptablesWebsFilterRun_eq]
  simp

theorem agrees_flush (s : Box) :
    Agrees env .webFilter (flush .webFilter s) ↔ NoWebFilter env s.nvram := by
  rw [agrees_webFilter, flush_chain, flush_nvram, ← webFilterRules_eq_nil]
  exact eq_comm

theorem noWebFilter_enabled (value : Str) :
    NoWebFilter env (nvramSet nv .websURLFilterEnabled value) ↔ NoWebFilter env nv := by
  simp [NoWebFilter, webFilterCmds, contentCmds, contentFilter, nvramSet]

/-- The settings of the two port-forwarding lists. -/
def Key.isForward : Key → Bool
  | .portForwardEnable | .portForwardRules | .singlePortForwardEnable
  | .singlePortForwardRules => true
  | _ => false

/-- Nothing that the web filter uses is different. -/
structure WebFrame (s s' : Box) : Prop where
  chain : s'.chains .webFilter = s.chains .webFilter
  nvram : ∀ key, key.isForward = false → s'.nvram key = s.nvram key

theorem WebFrame.refl (s : Box) : WebFrame s s := ⟨rfl, fun _ _ => rfl⟩

theorem WebFrame.trans {s₁ s₂ s₃ : Box} (h₁ : WebFrame s₁ s₂) (h₂ : WebFrame s₂ s₃) :
    WebFrame s₁ s₃ :=
  ⟨h₂.chain.trans h₁.chain, fun key hkey => (h₂.nvram key hkey).trans (h₁.nvram key hkey)⟩

theorem WebFrame.set (s : Box) {key : Key} (hkey : key.isForward = true) (value : Str) :
    WebFrame s { s with nvram := nvramSet s.nvram key value } where
  chain := rfl
  nvram := by
    intro other hother
    have hne : other ≠ key := by
      intro heq
      rw [heq, hkey] at hother
      cases hother
    exact update_of_ne hne _ _

theorem WebFrame.flush (s : Box) : WebFrame s (flush .portForward s) :=
  ⟨flush_other (by decide) s, fun _ _ => rfl⟩

theorem WebFrame.restart (s : Box) :
    WebFrame s (iptablesPortForwardRun env (Firewall.flush .portForward s)) ∧
      WebFrame s (iptablesSinglePortForwardRun env (Firewall.flush .portForward s)) := by
  have happend : ∀ rules, WebFrame (Firewall.flush .portForward s)
      ((Firewall.flush .portForward s).append .portForward rules) := fun rules =>
    ⟨Box.append_other _ (by decide) rules, fun _ _ => rfl⟩
  rw [iptablesPortForwardRun_eq, iptablesSinglePortForwardRun_eq]
  exact ⟨(WebFrame.flush s).trans (happend _), (WebFrame.flush s).trans (happend _)⟩

theorem WebFrame.agrees {s' : Box} (h : WebFrame s s') (hs : Agrees env .webFilter s) :
    Agrees env .webFilter s' := by
  rw [agrees_webFilter] at hs ⊢
  -- the commands are made of six settings, none of which belongs to port forwarding
  have hcmds : webFilterCmds s'.nvram = webFilterCmds s.nvram := by
    rw [webFilterCmds, webFilterCmds, contentCmds, contentCmds, contentFilter, contentFilter,
      h.nvram .websFilterJava rfl, h.nvram .websFilterActivex rfl, h.nvram .websFilterCookies rfl,
      h.nvram .websFilterProxy rfl, h.nvram .websURLFilters rfl, h.nvram .websHostFilters rfl]
  rw [h.chain, hs, webFilterRules, webFilterRules, hcmds]

theorem webFrame_portForward (form : ForwardForm) (s : Box) :
    WebFrame s (portForward env form s) := by
  rw [portForward]
  cases portForwardRecord form with
  | none => exact .refl s
  | some rec =>
    refine WebFrame.trans ?_ (WebFrame.restart _).1
    exact (WebFrame.set s (by rfl) _).trans (WebFrame.set _ (by rfl) _)

theorem webFrame_portForwardDelete (form : DeleteForm) (s : Box) :
    WebFrame s (portForwardDelete env form s) := by
  rw [portForwardDelete]
  cases deletedRules form (s.nvram .portForwardRules) with
  | none => exact .refl s
  | some rules =>
    simp only
    split
    · exact .set _ (by rfl) _
    · exact (WebFrame.set _ (by rfl) _).trans (WebFrame.restart _).1

theorem webFrame_portForwardBasicSettings (enable : Str) (s : Box) :
    WebFrame s (portForwardBasicSettings env enable s) := by
  rw [portForwardBasicSettings]
  split
  · exact (WebFrame.set _ (by rfl) _).trans (WebFrame.flush _)
  · exact (WebFrame.set _ (by rfl) _).trans (WebFrame.restart _).1

theorem webFrame_singlePortForward (form : ForwardForm) (s : Box) :
    WebFrame s (singlePortForward env form s) := by
  rw [singlePortForward]
  cases singlePortForwardRecord form with
  | none => exact .refl s
  | some rec =>
    refine WebFrame.trans ?_ (WebFrame.restart _).2
    exact (WebFrame.set s (by rfl) _).trans (WebFrame.set _ (by rfl) _)

theorem webFrame_singlePortForwardDelete (form : DeleteForm) (s : Box) :
    WebFrame s (singlePortForwardDelete env form s) := by
  rw [singlePortForwardDelete]
  cases deletedRules form (s.nvram .singlePortForwardRules) with
  | none => exact .refl s
  | some rules =>
    simp only
    split
    · exact .set _ (by rfl) _
    · exact (WebFrame.set _ (by rfl) _).trans (WebFrame.restart _).2

theorem webFrame_singlePortForwardBasicSettings (enable : Str) (s : Box) :
    WebFrame s (singlePortForwardBasicSettings env enable s) := by
  rw [singlePortForwardBasicSettings]
  split
  · exact (WebFrame.set _ (by rfl) _).trans (WebFrame.flush _)
  · exact (WebFrame.set _ (by rfl) _).trans (WebFrame.restart _).2

theorem agrees_websFilterDelete (h : Agrees env .webFilter s) (key : Key) (form : DeleteForm) :
    Agrees env .webFilter (websFilterDelete env key form s) := by
  rw [websFilterDelete]
  cases deletedRules form (s.nvram key) with
  | none => exact h
  | some filters => exact agrees_restart _

theorem agrees_webFilter_handle_iff (h : Agrees env .webFilter s) (r : Request) :
    Agrees env .webFilter (handle env s r) ↔ OffWithoutRules env s r := by
  cases r with
  | portForward form => exact iff_of_true ((webFrame_portForward form s).agrees h) trivial
  | portForwardDelete form =>
    exact iff_of_true ((webFrame_portForwardDelete form s).agrees h) trivial
  | portForwardBasicSettings enable =>
    exact iff_of_true ((webFrame_portForwardBasicSettings enable s).agrees h) trivial
  | singlePortForward form =>
    exact iff_of_true ((webFrame_singlePortForward form s).agrees h) trivial
  | singlePortForwardDelete form =>
    exact iff_of_true ((webFrame_singlePortForwardDelete form s).agrees h) trivial
  | singlePortForwardBasicSettings enable =>
    exact iff_of_true ((webFrame_singlePortForwardBasicSettings enable s).agrees h) trivial
  | webContentFilter form =>
    refine iff_of_true ?_ trivial
    simp only [handle, webContentFilter]
    exact agrees_restart _
  | websURLFilterDelete form => exact iff_of_true (agrees_websFilterDelete h _ form) trivial
  | websHostFilterDelete form => exact iff_of_true (agrees_websFilterDelete h _ form) trivial
  | websHostFilter form =>
    refine iff_of_true ?_ trivial
    simp only [handle, websHostFilter]
    cases addedFilter form (s.nvram .websHostFilters) with
    | none => exact h
    | some filters => exact agrees_restart _
  -- only the last two look at `websURLFilterEnabled`
  | websURLBasicSettings enable =>
    simp only [handle, websURLBasicSettings, OffWithoutRules]
    split
    · next hoff => simp only [agrees_flush, noWebFilter_enabled, hoff, forall_const]
    · next hon => exact iff_of_true (agrees_restart _) fun hoff => absurd hoff hon
  | websURLFilter form =>
    simp only [handle, websURLFilter, OffWithoutRules]
    cases addedFilter form (s.nvram .websURLFilters) with
    | none => simpa using h
    | some filters =>
      have hkey : nvramSet s.nvram .websURLFilters filters .websURLFilterEnabled =
          s.nvram .websURLFilterEnabled := by simp [nvramSet]
      simp only [flush_nvram, hkey, mem_some_iff, forall_eq']
      split
      · next hoff => simp only [agrees_flush, hoff, forall_const]
      · next hon => exact iff_of_true (agrees_restart _) fun hoff => absurd hoff hon

/-- **Web filters and the stored settings**: over any requests after boot, the chain agrees with
    the settings in every state exactly if URL filtering is switched off, or found off while a URL
    is added, only where the settings make no rule. -/
theorem web_filter_run (env : Env) (s : Box) (reqs : List Request) :
    Agrees env .webFilter (firewallInit env s) ∧
      (Along (handle env) (fun s r => Agrees env .webFilter (handle env s r))
          (firewallInit env s) reqs ↔
        Along (handle env) (OffWithoutRules env) (firewallInit env s) reqs) := by
  refine ⟨agrees_firewallInit _ s, ?_⟩
  have hkept : ∀ s r, Agrees env .webFilter s → OffWithoutRules env s r →
      Agrees env .webFilter (handle env s r) := fun s r hInv hG =>
    (agrees_webFilter_handle_iff hInv r).mpr hG
  exact along_iff_of_invariant reqs hkept (fun s r hInv => agrees_webFilter_handle_iff hInv r)
    (agrees_firewallInit _ s)

/-- A URL is blocked with URL filtering on; then URL filtering is switched off. -/
def sampleFilters : List Request :=
  [.websURLBasicSettings "1".toList, .websURLFilter ⟨"example.com".toList, true⟩,
   .websURLBasicSettings "0".toList]

/-- The rule is gone until the next boot installs it again. -/
theorem url_filter_off_drops_rules :
    ¬ Along (handle sampleEnv) (fun s r => Agrees sampleEnv .webFilter (handle sampleEnv s r))
      (firewallInit sampleEnv blankBox) sampleFilters := by
  decide +kernel

end RalinkSdk.Firewall
