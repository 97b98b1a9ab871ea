import RalinkSdk.Firewall.FilterMeaning

/-!
# Firewall settings of the web server: what a form of the IP and port filter says

A form says which packets a filter is for.  The record that `ipportFilter` stores goes through
`iptablesIPPortFilterRun`, and the command that comes out says again which packets the rule is
for.
-/

namespace RalinkSdk.Firewall

open Lib List Option Nat

/-! ## What a form says -/

/-- A field that the user has filled in. -/
def filled (field : Option Str) : Option Str := field.filter (· ≠ [])

/-- The ports that a form asks for, in the notation of `iptables`. -/
def wantedPorts (first last : Option Str) : Option Str :=
  match filled first, filled last with
  | none, none => none
  | some f, none => some (fmtInt (atoi f))
  | f, some t => some (fmtInt (atoi (f.getD [])) ++ ":".toList ++ fmtInt (atoi t))

def FilterProto.word : FilterProto → Option Str
  | .tcp => some "tcp".toList
  | .udp => some "udp".toList
  | .icmp => some "icmp".toList
  | .none => Option.none

def FilterAction.word : FilterAction → Str
  | .drop => "DROP".toList
  | .accept => "ACCEPT".toList

/-- What a form asks for. -/
def wanted (form : IpPortForm) : Constraints where
  mac := filled form.macAddress
  src := (filled form.sipAddress).bind addrConstraint
  dst := (filled form.dipAddress).bind addrConstraint
  proto := (filterProtoOf (form.protocol.getD [])).bind FilterProto.word
  sport := wantedPorts form.sFromPort form.sToPort
  dport := wantedPorts form.dFromPort form.dToPort
  target := (filterActionOf (form.action.getD [])).map FilterAction.word

def PortRange (first last : Option Str) : Prop :=
  filled first ≠ none ∨ filled last ≠ none →
    let upper := ((filled last).map atoi).getD (atoi (first.getD []))
    1 ≤ atoi (first.getD []) ∧ atoi (first.getD []) ≤ upper ∧ upper ≤ 65535

variable (gap : Str) (env : Env)

/-- The stored list gets one more record, and the command that is built from it constrains what the
    form says and nothing else. -/
def SaysWhatFormSays (form : IpPortForm) (s : FilterBox) : Prop :=
  (∃ rec cmd, records (ipportFilter gap env form s).rules 256 = storedRecords s.rules ++ [rec] ∧
    ipPortFilterCmd gap (atoi s.spifw) rec = some cmd ∧ readCommand cmd = some (wanted form)) ∧
  PortRange form.sFromPort form.sToPort ∧ PortRange form.dFromPort form.dToPort

/-- A first port that is filled in is positive, and a last port comes with a first port that is not
    above it. -/
def PortsInOrder (first last : Option Str) : Prop :=
  (∀ f, filled first = some f → 0 < atoi f) ∧
    ∀ t, filled last = some t → ∃ f, filled first = some f ∧ atoi f ≤ atoi t

/-- The forms that are stored and read again without loss. -/
structure Sayable (form : IpPortForm) (rules rec : Str) : Prop where
  sip : ∃ sip, form.sipAddress = some sip ∧ sip.length ≤ 31
  dip : ∃ dip, form.dipAddress = some dip ∧ dip.length ≤ 31
  ports : if form.protocol = some "TCP".toList ∨ form.protocol = some "UDP".toList then
      PortsInOrder form.sFromPort form.sToPort ∧ PortsInOrder form.dFromPort form.dToPort
    else filled form.sFromPort = none ∧ filled form.sToPort = none ∧
      filled form.dFromPort = none ∧ filled form.dToPort = none
  room : rules = [] ∨ rules.length + 1 + rec.length ≤ 8191

/-! ## Accepted forms -/

/-- What `ipportFilter` has checked when it stores a record. -/
structure AcceptedAs (form : IpPortForm) (a : FilterArgs) (comment : Str) (proto : FilterProto)
    (action : FilterAction) : Prop where
  mac : a.mac = form.macAddress.getD [] ∧ (a.mac = [] ∨ isMacValid a.mac = true)
  sip : filterAddrOf form.behindSip (form.sipAddress.getD "any".toList) = some a.sip
  dip : filterAddrOf form.behindDip (form.dipAddress.getD "any".toList) = some a.dip
  protoOf : filterProtoOf (form.protocol.getD []) = some proto
  sprf : filterPortOf proto (form.sFromPort.getD "0".toList) = some a.sprf
  sprt : filterPortOf proto (form.sToPort.getD []) = some a.sprt
  dprf : filterPortOf proto (form.dFromPort.getD "0".toList) = some a.dprf
  dprt : filterPortOf proto (form.dToPort.getD []) = some a.dprt
  actionOf : filterActionOf (form.action.getD []) = some action
  comment : commentOk comment
  proto : a.proto = proto.num
  action : a.action = action.num

theorem ipportFilterRecord_cases {form : IpPortForm} {rec : Str}
    (h : ipportFilterRecord form = some rec) : ∃ a comment proto action,
      rec = filterText a comment ∧ AcceptedAs form a comment proto action := by
  obtain ⟨⟨a, comment⟩, hargs, rfl⟩ := map_eq_some_iff.mp h
  simp only [ipportFilterArgs, bind_eq_bind, bind_eq_some_iff, guard_eq_some] at hargs
  obtain ⟨-, -, -, hmac, sip, hsip, dip, hdip, proto, hproto, sprf, hsprf, sprt, hsprt, dprf, hdprf,
    dprt, hdprt, action, haction, -, hcomment, heq⟩ := hargs
  obtain ⟨rfl, rfl⟩ := Prod.mk.inj (some.inj heq)
  exact ⟨_, _, proto, action, rfl, ⟨rfl, hmac⟩, hsip, hdip, hproto, hsprf, hsprt, hdprf, hdprt,
    haction, hcomment, rfl, rfl⟩

theorem filterPortOf_filled {proto : FilterProto} (hproto : proto = .tcp ∨ proto = .udp)
    {field : Option Str} {default : Str} (hdefault : default = [] ∨ default = "0".toList) {n : Int}
    (h : filterPortOf proto (field.getD default) = some n) : n = ((filled field).map atoi).getD 0 ∧
      ∀ f, filled field = some f → atoi f ≠ 0 ∧ atoi f ≤ 65535 := by
  have hnot : ¬ (proto = .none ∨ proto = .icmp) := by
    rcases hproto with rfl | rfl <;> decide
  cases field with
  | none =>
    refine ⟨?_, fun f hf => by cases hf⟩
    -- the default 0 is refused, so a first port of TCP or UDP is in the request
    rcases hdefault with rfl | rfl
    · exact (some.inj h).symm
    · rw [filterPortOf, if_neg (by simp [hnot]), if_pos (.inl (by decide))] at h
      cases h
  | some s =>
    rw [getD_some] at h
    by_cases hs : s = []
    · subst hs
      refine ⟨(some.inj h).symm, fun f hf => by cases hf⟩
    · have hfilled : filled (some s) = some s := by simp [filled, hs]
      rw [filterPortOf, if_neg (by simp [hnot, hs])] at h
      split_ifs at h with hrange
      rw [not_or] at hrange
      rw [hfilled]
      refine ⟨(some.inj h).symm, fun f hf => ?_⟩
      obtain rfl := some.inj hf
      exact ⟨hrange.1, by omega⟩

/-! ## Fields -/

theorem filled_eq_some {field : Option Str} {f : Str} :
    filled field = some f ↔ field = some f ∧ f ≠ [] := by
  simp [filled, filter_eq_some_iff]

theorem getD_of_filled_eq_none {field : Option Str} (h : filled field = none) :
    field.getD [] = [] := by
  cases field with
  | none => rfl
  | some s =>
    rw [getD_some]
    by_contra hs
    rw [filled_eq_some.mpr ⟨rfl, hs⟩] at h
    cases h

theorem wantedPorts_eq_none {first last : Option Str} (h : wantedPorts first last = none) :
    filled first = none ∧ filled last = none := by
  rw [wantedPorts] at h
  cases hf : filled first <;> cases ht : filled last <;> simp [hf, ht] at h ⊢

theorem hasPorts_iff {form : IpPortForm} {proto : FilterProto}
    (h : filterProtoOf (form.protocol.getD []) = some proto) :
    (form.protocol = some "TCP".toList ∨ form.protocol = some "UDP".toList) ↔
      (proto = .tcp ∨ proto = .udp) := by
  cases hform : form.protocol with
  | none =>
    rw [hform] at h
    cases h
  | some s =>
    rw [hform, getD_some, filterProtoOf] at h
    simp only [some.injEq]
    split_ifs at h with h₁ h₂ h₃ h₄
    · obtain rfl := some.inj h
      exact iff_of_true (.inl h₁) (.inl rfl)
    · obtain rfl := some.inj h
      exact iff_of_true (.inr h₂) (.inr rfl)
    · obtain rfl := some.inj h
      exact iff_of_false (not_or.mpr ⟨h₁, h₂⟩) (by decide)
    · obtain rfl := some.inj h
      exact iff_of_false (not_or.mpr ⟨h₁, h₂⟩) (by decide)

section

variable {first last : Option Str}
  (hfirst : ∀ f, filled first = some f → atoi f ≠ 0 ∧ atoi f ≤ 65535)
  (hlast : ∀ t, filled last = some t → atoi t ≠ 0 ∧ atoi t ≤ 65535)

include hfirst hlast

theorem portRange_iff : PortRange first last ↔ PortsInOrder first last := by
  -- four cases: whether the first port is filled in, and whether the last one is
  cases hf : filled first with
  | none =>
    cases ht : filled last with
    | none =>
      refine iff_of_true (fun h => ?_) ⟨fun f h => ?_, fun t h => ?_⟩
      · simp [hf, ht] at h
      · rw [hf] at h
        cases h
      · rw [ht] at h
        cases h
    | some t =>
      -- a last port alone is stored as a range that starts at 0
      refine iff_of_false (fun h => ?_) (fun h => ?_)
      · have hrange := (h (.inr (by simp [ht]))).1
        rw [getD_of_filled_eq_none hf] at hrange
        exact absurd hrange (by decide)
      · obtain ⟨f, h', -⟩ := h.2 t ht
        rw [hf] at h'
        cases h'
  | some f =>
    have hget : first.getD [] = f := by rw [(filled_eq_some.mp hf).1, getD_some]
    have hbound := hfirst f hf
    cases ht : filled last with
    | none =>
      constructor
      · intro h
        have hrange := (h (.inl (by simp [hf]))).1
        rw [hget] at hrange
        refine ⟨fun f' h' => ?_, fun t h' => ?_⟩
        · rw [hf] at h'
          obtain rfl := some.inj h'
          omega
        · rw [ht] at h'
          cases h'
      · intro h _
        have hpos := h.1 f hf
        simp only [hget, ht, map_none, getD_none]
        omega
    | some t =>
      have hbound' := hlast t ht
      constructor
      · intro h
        have hrange := h (.inl (by simp [hf]))
        simp only [hget, ht, map_some, getD_some] at hrange
        refine ⟨fun f' h' => ?_, fun t' h' => ?_⟩
        · rw [hf] at h'
          obtain rfl := some.inj h'
          omega
        · rw [ht] at h'
          obtain rfl := some.inj h'
          exact ⟨f, hf, hrange.2.1⟩
      · intro h _
        obtain ⟨f', h', hle⟩ := h.2 t ht
        rw [hf] at h'
        obtain rfl := some.inj h'
        have hpos := h.1 f hf
        simp only [hget, ht, map_some, getD_some]
        omega

theorem portText_eq_wanted (horder : PortsInOrder first last) :
    (if ((filled first).map atoi).getD 0 = 0 then none
      else some (portText (((filled first).map atoi).getD 0) (((filled last).map atoi).getD 0))) =
      wantedPorts first last := by
  rw [wantedPorts]
  cases hf : filled first with
  | none =>
    cases ht : filled last with
    | none => rfl
    | some t =>
      obtain ⟨f, h', -⟩ := horder.2 t ht
      rw [hf] at h'
      cases h'
  | some f =>
    have hne := (hfirst f hf).1
    cases ht : filled last with
    | none => simp [hne, portText]
    | some t => simp [hne, (hlast t ht).1, portText]

end

/-! ## Addresses of a form -/

section

variable {behind addr : Str} {field : Option Str}
  (h : filterAddrOf behind (field.getD "any".toList) = some addr)

include h

theorem filterAddrOf_short {s : Str} (hs : field = some s) (hlen : s.length ≤ 31) :
    (isIpNetmaskValid [] addr = true ∧ addr.length ≤ 31) ∧
      addrConstraint addr = (filled field).bind addrConstraint := by
  subst hs
  rw [getD_some, filterAddrOf] at h
  split_ifs at h with hnil hvalid
  · -- an empty field is stored as `any/0`, which constrains nothing
    obtain rfl := some.inj h
    refine ⟨by decide, ?_⟩
    rw [hnil]
    rfl
  · obtain rfl := some.inj h
    rw [isIpNetmaskValid_short (by omega)] at hvalid
    rw [filled_eq_some.mpr ⟨rfl, hnil⟩]
    exact ⟨⟨hvalid, hlen⟩, rfl⟩

theorem filterAddrOf_absent (hnone : field = none) : addr = "any".toList := by
  subst hnone
  have hvalid : isIpNetmaskValid behind "any".toList = true := rfl
  rw [getD_none, filterAddrOf, if_neg (by decide), if_pos hvalid] at h
  exact (some.inj h).symm

end

theorem short_of_addrConstraint {b : Str} {field : Option Str} (hlen : b.length ≤ 31)
    (habsent : field = none → b.length ≤ 3)
    (h : addrConstraint b = (filled field).bind addrConstraint) :
    ∃ s, field = some s ∧ s.length ≤ 31 := by
  cases field with
  | none =>
    -- `any/0` is longer than what can be read of `any`
    have hshort := habsent rfl
    rw [addrConstraint] at h
    split_ifs at h with hany
    · rw [hany] at hshort
      exact absurd hshort (by decide)
    · cases h
  | some s =>
    refine ⟨s, rfl, ?_⟩
    by_cases hs : s = []
    · rw [hs]
      decide
    rw [filled_eq_some.mpr ⟨rfl, hs⟩, bind_some, addrConstraint, addrConstraint] at h
    by_cases hany : s = "any/0".toList
    · rw [hany]
      decide
    · rw [if_neg hany] at h
      split_ifs at h
      rw [← some.inj h]
      exact hlen

/-! ## The theorem -/

section

variable {form : IpPortForm} {a : FilterArgs} {comment : Str} {proto : FilterProto}
  {action : FilterAction} (h : AcceptedAs form a comment proto action)

include h

theorem AcceptedAs.proto_mem : a.proto = 1 ∨ a.proto = 2 ∨ a.proto = 4 ∨ a.proto = 5 := by
  rw [h.proto]
  cases proto <;> simp [FilterProto.num]

theorem AcceptedAs.action_mem : a.action = 0 ∨ a.action = 1 := by
  rw [h.action]
  cases action <;> simp [FilterAction.num]

theorem AcceptedAs.ports_of_hasPorts (hports : proto = .tcp ∨ proto = .udp) :
    (a.sprf = ((filled form.sFromPort).map atoi).getD 0 ∧
      a.sprt = ((filled form.sToPort).map atoi).getD 0) ∧
    (a.dprf = ((filled form.dFromPort).map atoi).getD 0 ∧
      a.dprt = ((filled form.dToPort).map atoi).getD 0) :=
  ⟨⟨(filterPortOf_filled hports (.inr rfl) h.sprf).1, (filterPortOf_filled hports (.inl rfl) h.sprt).1⟩,
    ⟨(filterPortOf_filled hports (.inr rfl) h.dprf).1, (filterPortOf_filled hports (.inl rfl) h.dprt).1⟩⟩

theorem AcceptedAs.ports_of_not (hports : ¬ (proto = .tcp ∨ proto = .udp)) :
    a.sprf = 0 ∧ a.sprt = 0 ∧ a.dprf = 0 ∧ a.dprt = 0 := by
  have hnone : ∀ s, filterPortOf proto s = some 0 := by
    intro s
    rw [filterPortOf, if_pos]
    cases proto with
    | tcp => exact absurd (.inl rfl) hports
    | udp => exact absurd (.inr rfl) hports
    | icmp => exact .inr (.inr rfl)
    | none => exact .inr (.inl rfl)
  have h₁ := h.sprf
  have h₂ := h.sprt
  have h₃ := h.dprf
  have h₄ := h.dprt
  rw [hnone] at h₁ h₂ h₃ h₄
  exact ⟨(some.inj h₁).symm, (some.inj h₂).symm, (some.inj h₃).symm, (some.inj h₄).symm⟩

/-- The condition on the ports, for a protocol that has ports and for one that has none. -/
def PortsSayable (form : IpPortForm) (proto : FilterProto) : Prop :=
  if proto = .tcp ∨ proto = .udp then
    PortsInOrder form.sFromPort form.sToPort ∧ PortsInOrder form.dFromPort form.dToPort
  else filled form.sFromPort = none ∧ filled form.sToPort = none ∧
    filled form.dFromPort = none ∧ filled form.dToPort = none

omit h in
theorem port_bounds {first : Option Str} (hfirst : ∀ f, filled first = some f → 0 < atoi f)
    (hle : ∀ f, filled first = some f → atoi f ≤ 65535) :
    0 ≤ ((filled first).map atoi).getD 0 ∧ ((filled first).map atoi).getD 0 ≤ 65535 := by
  cases hf : filled first with
  | none => decide
  | some f => exact ⟨(hfirst f hf).le, hle f hf⟩

omit h in
theorem PortsInOrder.last_pos {first last : Option Str} (h : PortsInOrder first last) :
    ∀ t, filled last = some t → 0 < atoi t := by
  intro t ht
  obtain ⟨f, hf, hle⟩ := h.2 t ht
  exact (h.1 f hf).trans_le hle

theorem AcceptedAs.storable (hsip : isIpNetmaskValid [] a.sip = true ∧ a.sip.length ≤ 31)
    (hdip : isIpNetmaskValid [] a.dip = true ∧ a.dip.length ≤ 31)
    (hports : proto = .tcp ∨ proto = .udp →
      PortsInOrder form.sFromPort form.sToPort ∧ PortsInOrder form.dFromPort form.dToPort) :
    StorableArgs a comment := by
  have hnum : (0 ≤ a.sprf ∧ a.sprf ≤ 65535) ∧ (0 ≤ a.sprt ∧ a.sprt ≤ 65535) ∧
      (0 ≤ a.dprf ∧ a.dprf ≤ 65535) ∧ (0 ≤ a.dprt ∧ a.dprt ≤ 65535) := by
    by_cases hproto : proto = .tcp ∨ proto = .udp
    · obtain ⟨hs, hd⟩ := hports hproto
      obtain ⟨⟨h₁, h₂⟩, h₃, h₄⟩ := h.ports_of_hasPorts hproto
      rw [h₁, h₂, h₃, h₄]
      refine ⟨port_bounds hs.1 fun f hf => ?_, port_bounds hs.last_pos fun f hf => ?_,
        port_bounds hd.1 fun f hf => ?_, port_bounds hd.last_pos fun f hf => ?_⟩
      · exact ((filterPortOf_filled hproto (.inr rfl) h.sprf).2 f hf).2
      · exact ((filterPortOf_filled hproto (.inl rfl) h.sprt).2 f hf).2
      · exact ((filterPortOf_filled hproto (.inr rfl) h.dprf).2 f hf).2
      · exact ((filterPortOf_filled hproto (.inl rfl) h.dprt).2 f hf).2
    · obtain ⟨h₁, h₂, h₃, h₄⟩ := h.ports_of_not hproto
      rw [h₁, h₂, h₃, h₄]
      decide
  refine ⟨hsip, hdip, hnum.1, hnum.2.1, hnum.2.2.1, hnum.2.2.2, h.proto_mem, h.action_mem,
    ⟨h.comment.2.2, h.comment.1⟩, ?_⟩
  rcases h.mac.2 with hmac | hmac
  · simp [hmac]
  · exact ⟨not_mem_of_macValid hmac rfl (by decide), (macChar_of_valid hmac).1.le⟩

theorem AcceptedAs.ports_eq_wanted (hports : PortsSayable form proto) :
    (constraintsOf a).sport = wantedPorts form.sFromPort form.sToPort ∧
      (constraintsOf a).dport = wantedPorts form.dFromPort form.dToPort := by
  rw [PortsSayable] at hports
  by_cases hproto : proto = .tcp ∨ proto = .udp
  · rw [if_pos hproto] at hports
    obtain ⟨⟨h₁, h₂⟩, h₃, h₄⟩ := h.ports_of_hasPorts hproto
    have hs := portText_eq_wanted (filterPortOf_filled hproto (.inr rfl) h.sprf).2
      (filterPortOf_filled hproto (.inl rfl) h.sprt).2 hports.1
    have hd := portText_eq_wanted (filterPortOf_filled hproto (.inr rfl) h.dprf).2
      (filterPortOf_filled hproto (.inl rfl) h.dprt).2 hports.2
    have hnum : a.proto ≠ 5 ∧ a.proto ≠ 4 := by
      rw [h.proto]
      rcases hproto with rfl | rfl <;> decide
    rw [← h₁, ← h₂] at hs
    rw [← h₃, ← h₄] at hd
    rw [← hs, ← hd]
    simp [constraintsOf_sport, constraintsOf_dport, hnum.1, hnum.2]
  · rw [if_neg hproto] at hports
    obtain ⟨h₁, -, h₃, -⟩ := h.ports_of_not hproto
    obtain ⟨w₁, w₂, w₃, w₄⟩ := hports
    simp [constraintsOf_sport, constraintsOf_dport, wantedPorts, h₁, h₃, w₁, w₂, w₃, w₄]

/-- **The arguments say what the form says.** -/
theorem AcceptedAs.constraintsOf_eq {sip dip : Str} (hsip : form.sipAddress = some sip)
    (hsipLen : sip.length ≤ 31) (hdip : form.dipAddress = some dip) (hdipLen : dip.length ≤ 31)
    (hports : PortsSayable form proto) : constraintsOf a = wanted form := by
  have hboth := h.ports_eq_wanted hports
  ext1
  case mac =>
    change (if a.mac = [] then none else some a.mac) = filled form.macAddress
    rw [h.mac.1]
    split_ifs with hmac
    · cases hfield : form.macAddress with
      | none => rfl
      | some m =>
        rw [hfield, getD_some] at hmac
        rw [hmac]
        rfl
    · cases hfield : form.macAddress with
      | none =>
        rw [hfield] at hmac
        exact absurd rfl hmac
      | some m =>
        rw [hfield] at hmac
        exact (filled_eq_some.mpr ⟨rfl, hmac⟩).symm
  case src => exact (filterAddrOf_short h.sip hsip hsipLen).2
  case dst => exact (filterAddrOf_short h.dip hdip hdipLen).2
  case proto =>
    simp only [constraintsOf, wanted, h.protoOf, h.proto]
    cases proto <;> rfl
  case sport => exact hboth.1
  case dport => exact hboth.2
  case target =>
    simp only [constraintsOf, wanted, h.actionOf, h.action]
    cases action <;> rfl

theorem AcceptedAs.semicolon_not_mem (hstore : StorableArgs a comment) :
    ';' ∉ filterText a comment := by
  have hport : ∀ {n : Int}, 0 ≤ n → ';' ∉ fmtInt n := fun hn => not_mem_fmtInt_nonneg hn rfl
  have hproto : ';' ∉ fmtInt a.proto := hport (by have := h.proto_mem; omega)
  have haction : ';' ∉ fmtInt a.action := hport (by have := h.action_mem; omega)
  have hsip : ';' ∉ a.sip := not_mem_of_valid (by have := hstore.sip.2; omega) hstore.sip.1 rfl
  have hdip : ';' ∉ a.dip := not_mem_of_valid (by have := hstore.dip.2; omega) hstore.dip.1 rfl
  have hmac : ';' ∉ a.mac := by
    rcases h.mac.2 with hmac | hmac
    · simp [hmac]
    · exact not_mem_of_macValid hmac rfl (by decide)
  intro hmem
  -- it would be a comma or stand in one of the twelve values
  rcases mem_of_mem_intercalate hmem with hc | ⟨item, hitem, hc⟩
  · exact absurd hc (by decide)
  · revert hc
    revert hitem item
    simp only [forall_mem_cons]
    exact ⟨hsip, by decide, hport hstore.sprf.1, hport hstore.sprt.1, hdip, by decide,
      hport hstore.dprf.1, hport hstore.dprt.1, hproto, haction, h.comment.2.1, hmac,
      forall_mem_nil _⟩

end

section

variable {gap : Str} {env : Env} {form : IpPortForm} {s : FilterBox}

theorem ipportFilter_rules {rec : Str} (hrec : ipportFilterRecord form = some rec) :
    (ipportFilter gap env form s).rules = appendRule s.rules rec := by
  rw [ipportFilter, hrec]
  exact iptablesIPPortFilterRun_rules gap env _

variable {a : FilterArgs} {comment : Str} {proto : FilterProto} {action : FilterAction}

section

variable (h : AcceptedAs form a comment proto action)

include h

theorem sayable_iff (rules rec : Str) : Sayable form rules rec ↔
      ((∃ sip, form.sipAddress = some sip ∧ sip.length ≤ 31) ∧
        (∃ dip, form.dipAddress = some dip ∧ dip.length ≤ 31)) ∧
      PortsSayable form proto ∧ (rules = [] ∨ rules.length + 1 + rec.length ≤ 8191) := by
  have hports := if_congr (hasPorts_iff h.protoOf)
    (Eq.refl (PortsInOrder form.sFromPort form.sToPort ∧ PortsInOrder form.dFromPort form.dToPort))
    (Eq.refl (filled form.sFromPort = none ∧ filled form.sToPort = none ∧
      filled form.dFromPort = none ∧ filled form.dToPort = none))
  constructor
  · intro hsay
    exact ⟨⟨hsay.sip, hsay.dip⟩, Eq.mp hports hsay.ports, hsay.room⟩
  · rintro ⟨⟨hsip, hdip⟩, hp, hroom⟩
    exact ⟨hsip, hdip, Eq.mpr hports hp, hroom⟩

theorem portRanges_iff (hproto : proto = .tcp ∨ proto = .udp) :
    PortRange form.sFromPort form.sToPort ∧ PortRange form.dFromPort form.dToPort ↔
      PortsInOrder form.sFromPort form.sToPort ∧ PortsInOrder form.dFromPort form.dToPort := by
  rw [portRange_iff (filterPortOf_filled hproto (.inr rfl) h.sprf).2
      (filterPortOf_filled hproto (.inl rfl) h.sprt).2,
    portRange_iff (filterPortOf_filled hproto (.inr rfl) h.dprf).2
      (filterPortOf_filled hproto (.inl rfl) h.dprt).2]

theorem portRanges_of_sayable (hports : PortsSayable form proto) :
    PortRange form.sFromPort form.sToPort ∧ PortRange form.dFromPort form.dToPort := by
  rw [PortsSayable] at hports
  by_cases hproto : proto = .tcp ∨ proto = .udp
  · rw [if_pos hproto] at hports
    exact (portRanges_iff h hproto).mpr hports
  · rw [if_neg hproto] at hports
    obtain ⟨w₁, w₂, w₃, w₄⟩ := hports
    exact ⟨fun hany => absurd hany (by simp [w₁, w₂]), fun hany => absurd hany (by simp [w₃, w₄])⟩

theorem portsSayable_of_constraints (hsame : constraintsOf a = wanted form)
    (horder : proto = .tcp ∨ proto = .udp →
      PortsInOrder form.sFromPort form.sToPort ∧ PortsInOrder form.dFromPort form.dToPort) :
    PortsSayable form proto := by
  rw [PortsSayable]
  split_ifs with hproto
  · exact horder hproto
  · obtain ⟨h₁, -, h₃, -⟩ := h.ports_of_not hproto
    have hsport : none = wantedPorts form.sFromPort form.sToPort := by
      rw [← show (constraintsOf a).sport = none by simp [constraintsOf_sport, h₁], hsame]
      rfl
    have hdport : none = wantedPorts form.dFromPort form.dToPort := by
      rw [← show (constraintsOf a).dport = none by simp [constraintsOf_dport, h₃], hsame]
      rfl
    obtain ⟨w₁, w₂⟩ := wantedPorts_eq_none hsport.symm
    obtain ⟨w₃, w₄⟩ := wantedPorts_eq_none hdport.symm
    exact ⟨w₁, w₂, w₃, w₄⟩

theorem readCommand_storable (hstore : StorableArgs a comment) (spifw : Int) :
    readCommand (makeIPPortFilterRule gap spifw a) = some (constraintsOf a) := by
  have hplain : PlainArgs a :=
    plainArgs_of_valid hstore.sip.1 (lt_succ_of_le hstore.sip.2) hstore.dip.1
      (lt_succ_of_le hstore.dip.2) h.mac.2
  exact readCommand_make gap spifw hplain h.action_mem h.proto_mem

theorem says_of_sayable (hrec : ipportFilterRecord form = some (filterText a comment))
    (hsay : Sayable form s.rules (filterText a comment)) : SaysWhatFormSays gap env form s := by
  obtain ⟨⟨⟨sip, hsip, hsipLen⟩, dip, hdip, hdipLen⟩, hports, hroom⟩ := (sayable_iff h _ _).mp hsay
  have horder : proto = .tcp ∨ proto = .udp →
      PortsInOrder form.sFromPort form.sToPort ∧ PortsInOrder form.dFromPort form.dToPort := by
    intro hproto
    rwa [PortsSayable, if_pos hproto] at hports
  have hstore := h.storable (filterAddrOf_short h.sip hsip hsipLen).1
    (filterAddrOf_short h.dip hdip hdipLen).1 horder
  have hlen := hstore.length_le
  have hfits : (filterText a comment).take (room s.rules) = filterText a comment := by
    apply take_of_length_le
    rw [room]
    split_ifs with hnil
    · omega
    · have := hroom.resolve_left hnil
      omega
  have hrules : s.rules.length < 8191 := by
    rcases hroom with hnil | hle
    · simp [hnil]
    · omega
  have hread : readRecord (filterText a comment) = some a := by
    rw [readRecord_filterText hstore, if_pos h.mac.2]
  -- the record is stored whole, read back, and made into the command
  refine ⟨⟨filterText a comment, makeIPPortFilterRule gap (atoi s.spifw) a, ?_, ?_, ?_⟩, ?_⟩
  · rw [ipportFilter_rules hrec, records_appendRule _ hrules, hfits,
      records_singleton (h.semicolon_not_mem hstore), take_of_length_le hlen]
  · rw [ipPortFilterCmd, hread, map_some]
  · rw [readCommand_storable h hstore, h.constraintsOf_eq hsip hsipLen hdip hdipLen hports]
  · exact portRanges_of_sayable h hports

theorem short_of_read {b : FilterArgs} {k : Nat} {spifw : Int}
    (hread : readRecord ((filterText a comment).take k) = some b)
    (hcmd : readCommand (makeIPPortFilterRule gap spifw b) = some (wanted form))
    (hports : proto = .tcp ∨ proto = .udp →
      PortsInOrder form.sFromPort form.sToPort ∧ PortsInOrder form.dFromPort form.dToPort) :
    (∃ sip, form.sipAddress = some sip ∧ sip.length ≤ 31) ∧
      (∃ dip, form.dipAddress = some dip ∧ dip.length ≤ 31) := by
  obtain ⟨⟨hsip, hsipValid⟩, ⟨hdip, hdipValid⟩, -, hmac⟩ := readRecord_cases hread
  have hsipLen : b.sip.length ≤ 31 := length_le_of_getNthValueSafe hsip
  have hdipLen : b.dip.length ≤ 31 := length_le_of_getNthValueSafe hdip
  obtain ⟨hsrc, hdst⟩ := readCommand_addresses
    (plainArgs_of_valid hsipValid (by omega) hdipValid (by omega) hmac) hcmd
  have hsipShort : ∃ sip, form.sipAddress = some sip ∧ sip.length ≤ 31 := by
    apply short_of_addrConstraint hsipLen _ hsrc.symm
    intro hnone
    -- the record starts with the word `any`
    have hany := filterAddrOf_absent h.sip hnone
    have hfirst : ((filterText a comment).splitOn ',')[0]? = some "any".toList := by
      rw [filterText, intercalate_cons, flatMap_cons, hany, cons_append,
        splitOn_append_cons_self_of_not_mem (by decide)]
      rfl
    rw [getNthValueSafe_eq, map_eq_some_iff] at hsip
    obtain ⟨z, hz, hzsip⟩ := hsip
    obtain ⟨y, hy, hpre⟩ := splitOn_take ',' hz
    rw [hfirst] at hy
    obtain rfl := some.inj hy
    rw [← hzsip]
    exact (length_take_le' _ z).trans hpre.length_le
  obtain ⟨sip, hsipForm, hsipFormLen⟩ := hsipShort
  refine ⟨⟨sip, hsipForm, hsipFormLen⟩, ?_⟩
  -- the values in front of the destination are stored as they were sent, so that it is the fifth
  apply short_of_addrConstraint hdipLen _ hdst.symm
  intro hnone
  have hany := filterAddrOf_absent h.dip hnone
  have hstore := h.storable (filterAddrOf_short h.sip hsipForm hsipFormLen).1
    (by rw [hany]; decide) hports
  have hle := length_le_of_cut (by simp) hstore.not_mem (by rfl) hdip
  rw [hany] at hle
  exact hle

theorem whole_of_read {b : FilterArgs} {k : Nat} {spifw : Int} (hstore : StorableArgs a comment)
    (hread : readRecord ((filterText a comment).take k) = some b)
    (hcmd : readCommand (makeIPPortFilterRule gap spifw b) = some (wanted form)) :
    (filterText a comment).length ≤ k := by
  by_contra hcut
  -- the cut took the hardware address, which the form then has not
  obtain ⟨hmac, rfl⟩ := readRecord_cut hstore h.mac.2 (Nat.not_le.mp hcut) hread
  have hplain : PlainArgs { a with mac := [] } :=
    plainArgs_of_valid hstore.sip.1 (lt_succ_of_le hstore.sip.2) hstore.dip.1
      (lt_succ_of_le hstore.dip.2) (.inl rfl)
  rw [readCommand_make gap _ hplain h.action_mem h.proto_mem, some.injEq] at hcmd
  have hlost : none = filled form.macAddress := congrArg Constraints.mac hcmd
  rw [h.mac.1, getD_of_filled_eq_none hlost.symm] at hmac
  exact hmac rfl

theorem sayable_of_agrees (hrec : ipportFilterRecord form = some (filterText a comment))
    (hmeans : SaysWhatFormSays gap env form s) : Sayable form s.rules (filterText a comment) := by
  obtain ⟨⟨rec', cmd, hrecords, hcmd, hread⟩, hranges⟩ := hmeans
  have horder : proto = .tcp ∨ proto = .udp →
      PortsInOrder form.sFromPort form.sToPort ∧ PortsInOrder form.dFromPort form.dToPort :=
    fun hproto => (portRanges_iff h hproto).mp hranges
  -- the record that is read is a front of the one that was printed
  have hrules : s.rules.length < 8191 := by
    by_contra hfull
    have hle := records_appendRule_full (filterText a comment) (Nat.not_lt.mp hfull)
    rw [← ipportFilter_rules hrec, hrecords, length_append, length_singleton] at hle
    omega
  rw [ipportFilter_rules hrec, records_appendRule _ hrules, append_cancel_left_eq,
    records_eq_singleton, take_take] at hrecords
  obtain ⟨b, hb, rfl⟩ := map_eq_some_iff.mp hcmd
  rw [hrecords.2] at hb
  obtain ⟨⟨sip, hsip, hsipLen⟩, dip, hdip, hdipLen⟩ := short_of_read h hb hread horder
  have hstore := h.storable (filterAddrOf_short h.sip hsip hsipLen).1
    (filterAddrOf_short h.dip hdip hdipLen).1 horder
  have hlen := hstore.length_le
  have hwhole : (filterText a comment).length ≤ min (256 - 1) (room s.rules) :=
    whole_of_read h hstore hb hread
  rw [take_of_length_le hwhole, readRecord_filterText hstore, if_pos h.mac.2] at hb
  obtain rfl := some.inj hb
  rw [readCommand_storable h hstore, some.injEq] at hread
  refine (sayable_iff h _ _).mpr ⟨⟨⟨sip, hsip, hsipLen⟩, dip, hdip, hdipLen⟩, ?_, ?_⟩
  · exact portsSayable_of_constraints h hread horder
  · rw [room] at hwhole
    split_ifs at hwhole with hnil
    · exact .inl hnil
    · exact .inr (by omega)

end

/-- **Forms and commands**: an accepted form and the command built from its record say the same
    exactly if both addresses are sent and fit into 31 characters, the ports are in order (or, with
    a protocol that has none, left empty) and the record fits behind the list. -/
theorem filter_says_what_form_says_iff (gap : Str) (env : Env) (form : IpPortForm) (s : FilterBox)
    (rec : Str) (hrec : ipportFilterRecord form = some rec) :
    SaysWhatFormSays gap env form s ↔ Sayable form s.rules rec := by
  obtain ⟨a, comment, proto, action, rfl, h⟩ := ipportFilterRecord_cases hrec
  exact ⟨sayable_of_agrees h hrec, says_of_sayable h hrec⟩

/-- A filter for a web server behind the box. -/
def webForm (dToPort : String) : IpPortForm :=
  ⟨none, some [], some [], some [], some "192.168.1.0/24".toList, some "80".toList,
    some dToPort.toList, some "TCP".toList, some "Drop".toList, some [], [], []⟩

theorem filter_says_what_form_says_web :
    SaysWhatFormSays [] ⟨[], none, fun _ => true⟩ (webForm "90") ⟨"1".toList, [], [], [], []⟩ := by
  refine (filter_says_what_form_says_iff _ _ _ _
    "any/0,0,0,0,192.168.1.0/24,0,80,90,1,0,,".toList (by decide)).mpr ⟨?_, ?_, ?_, .inl rfl⟩
  · exact ⟨[], rfl, by decide⟩
  · exact ⟨_, rfl, by decide⟩
  · rw [if_pos (.inl rfl)]
    constructor
    · exact ⟨fun f hf => (by cases hf), fun t ht => (by cases ht)⟩
    · refine ⟨fun f hf => ?_, fun t ht => ⟨"80".toList, rfl, ?_⟩⟩
      · obtain rfl : "80".toList = f := Option.some.inj hf
        decide
      · obtain rfl : "90".toList = t := Option.some.inj ht
        decide

/-- The last port is below the first. -/
theorem filter_stores_reversed_range :
    ¬ ∀ (gap : Str) (env : Env) (form : IpPortForm) (s : FilterBox),
      (ipportFilterRecord form).isSome → SaysWhatFormSays gap env form s := by
  intro h
  have hrange := (h [] ⟨[], none, fun _ => true⟩ (webForm "70") ⟨"1".toList, [], [], [], []⟩
    (by decide)).2.2 (.inl (by decide))
  revert hrange
  decide

end

end RalinkSdk.Firewall
