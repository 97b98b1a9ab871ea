import RalinkSdk.Firewall.Records
import RalinkSdk.Firewall.Agreement

/-!
# Firewall settings of the web server: what a port-forwarding form stores

`portForward` checks the texts of a form with `inet_aton` and `atoi`, which both stop reading
before the end of the text, and then stores the address as it came.  `iptablesPortForwardRun` takes
the record apart again and puts the address into a shell command.
-/

namespace RalinkSdk.Firewall

open Lib List

/-! ## Dotted quads -/

/-- A decimal number up to 255. -/
def IsPart (part : Str) : Prop :=
  part ≠ [] ∧ (∀ c ∈ part, c.isDigit = true) ∧ decimal part ≤ 255

/-- Four decimal parts up to 255, and nothing else. -/
def IsDottedQuad (s : Str) : Prop :=
  (s.splitOn '.').length = 4 ∧ ∀ part ∈ s.splitOn '.', IsPart part

theorem addrPart_eq_some {s rest : Str} (h : addrPart s = some rest) :
    ∃ part, s = part ++ rest ∧ IsPart part := by
  rw [addrPart] at h
  split_ifs at h with hpart
  rw [not_or] at hpart
  obtain rfl := Option.some.inj h
  refine ⟨s.takeWhile Char.isDigit, (takeWhile_append_dropWhile).symm, hpart.1, ?_, by omega⟩
  intro c hc
  exact mem_takeWhile_imp hc

theorem addrDot_eq_some {s rest : Str} (h : addrDot s = some rest) : s = '.' :: rest := by
  unfold addrDot at h
  split at h
  · rw [Option.some.inj h]
  · cases h

theorem inetAton_cases {s : Str} (h : inetAton s = true) :
    ∃ p₁ p₂ p₃ p₄ rest, s = [p₁, p₂, p₃].foldr (fun p t => p ++ '.' :: t) (p₄ ++ rest) ∧
      (∀ p ∈ [p₁, p₂, p₃, p₄], IsPart p) ∧ ∀ c, rest.head? = some c → isspace c = true := by
  rw [inetAton] at h
  split at h
  · cases h
  all_goals
    rename_i hchain
    simp only [Option.bind_eq_bind, Option.bind_eq_some_iff] at hchain
    obtain ⟨s₁, h₁, s₂, h₂, s₃, h₃, s₄, h₄, s₅, h₅, s₆, h₆, h₇⟩ := hchain
    obtain ⟨p₁, rfl, hp₁⟩ := addrPart_eq_some h₁
    obtain rfl := addrDot_eq_some h₂
    obtain ⟨p₂, rfl, hp₂⟩ := addrPart_eq_some h₃
    obtain rfl := addrDot_eq_some h₄
    obtain ⟨p₃, rfl, hp₃⟩ := addrPart_eq_some h₅
    obtain rfl := addrDot_eq_some h₆
    obtain ⟨p₄, rfl, hp₄⟩ := addrPart_eq_some h₇
    refine ⟨p₁, p₂, p₃, p₄, _, rfl, ?_, ?_⟩
    · simp only [forall_mem_cons]
      exact ⟨hp₁, hp₂, hp₃, hp₄, forall_mem_nil _⟩
  · intro c hc
    cases hc
  · intro c hc
    rw [← Option.some.inj hc]
    exact h

theorem isDottedQuad_of_inetAton {s : Str} (h : inetAton s = true)
    (hspace : ∀ c ∈ s, isspace c = false) : IsDottedQuad s := by
  obtain ⟨p₁, p₂, p₃, p₄, rest, rfl, hparts, hrest⟩ := inetAton_cases h
  have hnil : rest = [] := by
    cases rest with
    | nil => rfl
    | cons c rest =>
      have hc := hspace c (by simp)
      rw [hrest c rfl] at hc
      cases hc
  have hdot : ∀ p ∈ [p₁, p₂, p₃, p₄], '.' ∉ p := by
    intro p hp hmem
    exact absurd ((hparts p hp).2.1 '.' hmem) (by decide)
  have hjoin : [p₁, p₂, p₃].foldr (fun p t => p ++ '.' :: t) (p₄ ++ rest) =
      ['.'].intercalate [p₁, p₂, p₃, p₄] := by
    simp [hnil]
  rw [hjoin, IsDottedQuad, splitOn_intercalate '.' hdot (by simp)]
  exact ⟨rfl, hparts⟩

theorem IsDottedQuad.char {s : Str} (h : IsDottedQuad s) {c : Char} (hc : c ∈ s) :
    c.isDigit = true ∨ c = '.' := by
  have hjoin : ['.'].intercalate (s.splitOn '.') = s := intercalate_splitOn '.'
  rw [← hjoin] at hc
  rcases mem_of_mem_intercalate hc with rfl | ⟨part, hpart, hmem⟩
  · exact .inr rfl
  · exact .inl ((h.2 part hpart).2.1 c hmem)

theorem IsDottedQuad.not_mem {s : Str} (h : IsDottedQuad s) {c : Char} (hc : c.isDigit = false)
    (hdot : c ≠ '.') : c ∉ s := by
  intro hmem
  rcases h.char hmem with h' | h'
  · rw [hc] at h'
    cases h'
  · exact hdot h'

theorem IsDottedQuad.ne_any {s : Str} (h : IsDottedQuad s) :
    s ≠ "any".toList ∧ s ≠ "any/0".toList := by
  constructor
  · rintro rfl
    exact h.not_mem (show Char.isDigit 'a' = false from rfl) (by decide) (by decide)
  · rintro rfl
    exact h.not_mem (show Char.isDigit 'a' = false from rfl) (by decide) (by decide)

theorem IsDottedQuad.not_isspace {s : Str} (h : IsDottedQuad s) : ∀ c ∈ s, isspace c = false := by
  intro c hc
  rcases h.char hc with hdigit | rfl
  · exact isspace_of_isDigit hdigit
  · rfl

/-! ## Accepted forms -/

def ForwardForm.storedPort2 (form : ForwardForm) : Int :=
  if form.port2 = [] then 0 else atoi form.port2

def ForwardForm.lastPort (form : ForwardForm) : Int :=
  if form.port2 = [] then atoi form.port else atoi form.port2

/-- The values of a record that `iptablesPortForwardRun` reads. -/
def recordText (form : ForwardForm) (proto : Proto) : Str :=
  [','].intercalate
    [form.ipAddress, fmtInt (atoi form.port), fmtInt form.storedPort2, fmtInt proto.num]

/-- What `portForward` has checked when it stores a record. -/
structure ForwardAccepted (form : ForwardForm) (rec : Str) (proto : Proto) : Prop where
  ip : isIpValid form.ipAddress = true
  port : atoi form.port ≠ 0 ∧ atoi form.port ≤ 65535
  port2 : form.port2 ≠ [] → atoi form.port ≤ atoi form.port2 ∧ atoi form.port2 ≤ 65535
  protoOf : protocolOf form.protocol = some proto
  comment : commentOk form.comment
  text : rec = recordText form proto ++ ',' :: form.comment

theorem portForwardRecord_cases {form : ForwardForm} {rec : Str}
    (h : portForwardRecord form = some rec) : ∃ proto, ForwardAccepted form rec proto := by
  simp only [portForwardRecord, Option.bind_eq_bind, Option.bind_eq_some_iff, guard_eq_some] at h
  obtain ⟨-, hip, -, hport, prt, hprt, proto, hproto, -, hcomment, heq⟩ := h
  have hstored : prt = form.storedPort2 ∧
      (form.port2 ≠ [] → atoi form.port ≤ atoi form.port2 ∧ atoi form.port2 ≤ 65535) := by
    rw [toPortOf] at hprt
    rw [ForwardForm.storedPort2]
    split_ifs at hprt ⊢ with hnil hrange
    · exact ⟨(Option.some.inj hprt).symm, fun hne => absurd hnil hne⟩
    · simp only [not_or] at hrange
      exact ⟨(Option.some.inj hprt).symm, fun _ => ⟨by omega, by omega⟩⟩
  refine ⟨proto, hip, hport, hstored.2, hproto, hcomment, ?_⟩
  rw [← Option.some.inj heq, ruleText, recordText, hstored.1]
  simp

/-! ## One more record -/

/-- Characters that end a command of the shell. -/
def shellSpecial : List Char := [';', '|', '&', '\n']

/-- One record more, that is read as the form was accepted. -/
structure AppendsRecord (form : ForwardForm) (rules rules' rec : Str) : Prop where
  appended : rules' = if rules = [] then rec else rules ++ ";".toList ++ rec
  nums : getNums rules' ';' = getNums rules ';' + 1
  quad : IsDottedQuad form.ipAddress
  range : 1 ≤ atoi form.port ∧ atoi form.port ≤ form.lastPort ∧ form.lastPort ≤ 65535
  reads : ∃ r proto, getNthValueSafe (getNums rules ';') rules' ';' 256 = some r ∧
    protocolOf form.protocol = some proto ∧
    getNthValueSafe 0 r ',' 32 = some form.ipAddress ∧
    (getNthValueSafe 1 r ',' 8).map atoi = some (atoi form.port) ∧
    (getNthValueSafe 2 r ',' 8).map atoi = some form.storedPort2 ∧
    (getNthValueSafe 3 r ',' 8).map atoi = some proto.num ∧
    ∀ wanIp, portForwardCmds wanIp r =
        (proto.rules.map fun p =>
          makePortForwardRule wanIp form.ipAddress p (atoi form.port) form.storedPort2) ∧
      ((∀ c ∈ shellSpecial, c ∉ wanIp) →
        ∀ cmd ∈ portForwardCmds wanIp r, ∀ c ∈ shellSpecial, c ∉ cmd)

/-- `PortForwardRules` stays as it is, or gets one record. -/
def StoresPlainly (env : Env) (form : ForwardForm) (s : Box) : Prop :=
  (portForward env form s).nvram .portForwardRules = s.nvram .portForwardRules ∨
    ∃ rec, AppendsRecord form (s.nvram .portForwardRules)
      ((portForward env form s).nvram .portForwardRules) rec

/-- The address is no word and has no white space in it, and fits; the first port is not negative;
    there is a list, and the record fits behind it up to its protocol. -/
def PlainForward (form : ForwardForm) (rules : Str) : Prop :=
  ((form.ipAddress ≠ "any".toList ∧ form.ipAddress ≠ "any/0".toList) ∧
    (∀ c ∈ form.ipAddress, isspace c = false) ∧ form.ipAddress.length ≤ 31) ∧
  0 < atoi form.port ∧ rules ≠ [] ∧
  rules.length + form.ipAddress.length + (fmtInt (atoi form.port)).length +
    (fmtInt form.storedPort2).length + 5 ≤ 8191

theorem portForward_rules (env : Env) {form : ForwardForm} {rec : Str}
    (h : portForwardRecord form = some rec) (s : Box) :
    (portForward env form s).nvram .portForwardRules =
      appendRule (s.nvram .portForwardRules) rec := by
  rw [portForward, h]
  simp [iptablesPortForwardRun_eq, nvramSet]

theorem num_bounds (proto : Proto) : 0 ≤ proto.num ∧ proto.num ≤ 65535 := by
  cases proto <;> decide

theorem length_fmtInt_num (proto : Proto) : (fmtInt proto.num).length = 1 := by
  cases proto <;> decide

section

variable {form : ForwardForm} {rec : Str} {proto : Proto} (h : ForwardAccepted form rec proto)

include h

theorem ForwardAccepted.storedPort2_bounds (hpos : 0 < atoi form.port) :
    0 ≤ form.storedPort2 ∧ form.storedPort2 ≤ 65535 := by
  have hport2 := h.port2
  rw [ForwardForm.storedPort2]
  split_ifs with hnil
  · decide
  · have := hport2 hnil
    omega

theorem ForwardAccepted.range (hpos : 0 < atoi form.port) :
    1 ≤ atoi form.port ∧ atoi form.port ≤ form.lastPort ∧ form.lastPort ≤ 65535 := by
  have hport := h.port
  have hport2 := h.port2
  rw [ForwardForm.lastPort]
  split_ifs with hnil
  · omega
  · have := hport2 hnil
    omega

theorem ForwardAccepted.comma_not_mem (hquad : IsDottedQuad form.ipAddress)
    (hpos : 0 < atoi form.port) :
    ∀ item ∈ [form.ipAddress, fmtInt (atoi form.port), fmtInt form.storedPort2, fmtInt proto.num],
      ',' ∉ item ∧ ';' ∉ item := by
  have hnum : ∀ {n : Int}, 0 ≤ n → ',' ∉ fmtInt n ∧ ';' ∉ fmtInt n := fun hn =>
    ⟨not_mem_fmtInt_nonneg hn rfl, not_mem_fmtInt_nonneg hn rfl⟩
  simp only [forall_mem_cons]
  exact ⟨⟨hquad.not_mem rfl (by decide), hquad.not_mem rfl (by decide)⟩, hnum hpos.le,
    hnum (h.storedPort2_bounds hpos).1, hnum (num_bounds proto).1, forall_mem_nil _⟩

theorem ForwardAccepted.semicolon_not_mem (hquad : IsDottedQuad form.ipAddress)
    (hpos : 0 < atoi form.port) : ';' ∉ rec := by
  rw [h.text, recordText]
  intro hmem
  rcases mem_append.mp hmem with hmem | hmem
  · rcases mem_of_mem_intercalate hmem with hc | ⟨item, hitem, hc⟩
    · exact absurd hc (by decide)
    · exact (h.comma_not_mem hquad hpos item hitem).2 hc
  · rcases mem_cons.mp hmem with hc | hc
    · exact absurd hc (by decide)
    · exact h.comment.2.1 hc

omit h in
theorem length_recordText (form : ForwardForm) (proto : Proto) :
    (recordText form proto).length = form.ipAddress.length + (fmtInt (atoi form.port)).length +
      (fmtInt form.storedPort2).length + 4 := by
  have hsum := length_intercalate ',' (show [form.ipAddress, fmtInt (atoi form.port),
    fmtInt form.storedPort2, fmtInt proto.num] ≠ [] by simp)
  have hnum := length_fmtInt_num proto
  simp only [map_cons, map_nil, sum_cons, sum_nil] at hsum
  rw [recordText]
  omega

theorem ForwardAccepted.reads (hquad : IsDottedQuad form.ipAddress) (hip : form.ipAddress.length ≤ 31)
    (hpos : 0 < atoi form.port) {k : Nat} (hk : (recordText form proto).length ≤ k) :
    getNthValueSafe 0 (rec.take k) ',' 32 = some form.ipAddress ∧
    (getNthValueSafe 1 (rec.take k) ',' 8).map atoi = some (atoi form.port) ∧
    (getNthValueSafe 2 (rec.take k) ',' 8).map atoi = some form.storedPort2 ∧
    (getNthValueSafe 3 (rec.take k) ',' 8).map atoi = some proto.num := by
  have hitems : ∀ item ∈ [form.ipAddress, fmtInt (atoi form.port), fmtInt form.storedPort2,
      fmtInt proto.num], ',' ∉ item := fun item hitem => (h.comma_not_mem hquad hpos item hitem).1
  have hsplit := splitOn_intercalate ',' hitems (by simp)
  have hget : ∀ i < 4, ((rec.take k).splitOn ',')[i]? =
      [form.ipAddress, fmtInt (atoi form.port), fmtInt form.storedPort2, fmtInt proto.num][i]? := by
    intro i hi
    rw [h.text, take_append, take_of_length_le hk]
    cases k - (recordText form proto).length with
    | zero => rw [take_zero, append_nil, recordText, hsplit]
    | succ j =>
      rw [take_succ_cons, splitOn_append_cons_self, recordText, hsplit,
        getElem?_append_left (by simpa using hi)]
  have hport := atoi_take_fmtInt ⟨hpos.le, h.port.2⟩
  have hport2 := atoi_take_fmtInt (h.storedPort2_bounds hpos)
  have hnum := atoi_take_fmtInt (num_bounds proto)
  simp only [getNthValueSafe_eq, hget 0 (by decide), hget 1 (by decide), hget 2 (by decide),
    hget 3 (by decide)]
  refine ⟨?_, ?_, ?_, ?_⟩
  · simp [take_of_length_le hip]
  · simp [hport]
  · simp [hport2]
  · simp [hnum]

theorem ForwardAccepted.cut (hquad : IsDottedQuad form.ipAddress) (hpos : 0 < atoi form.port)
    {k : Nat} (hk : k < (recordText form proto).length) {x : Str}
    (hx : getNthValueSafe 3 (rec.take k) ',' 8 = some x) : x = [] := by
  have hitems : ∀ item ∈ [form.ipAddress, fmtInt (atoi form.port), fmtInt form.storedPort2, []],
      ',' ∉ item := by
    have hall := h.comma_not_mem hquad hpos
    simp only [forall_mem_cons] at hall ⊢
    exact ⟨hall.1.1, hall.2.1.1, hall.2.2.1.1, not_mem_nil, forall_mem_nil _⟩
  -- the protocol is one digit, so that the cut is in front of it
  have hfront : rec.take k = ([','].intercalate [form.ipAddress, fmtInt (atoi form.port),
      fmtInt form.storedPort2, []]).take k := by
    have htext : recordText form proto = [','].intercalate [form.ipAddress,
        fmtInt (atoi form.port), fmtInt form.storedPort2, []] ++ fmtInt proto.num := by
      simp [recordText]
    rw [htext, length_append, length_fmtInt_num] at hk
    rw [h.text, htext, append_assoc, take_append_of_le_length (by omega)]
  rw [hfront] at hx
  have hle := length_le_of_cut (by simp) hitems (by rfl) hx
  exact eq_nil_of_length_eq_zero (Nat.le_zero.mp hle)

theorem ForwardAccepted.cmds_eq (hpos : 0 < atoi form.port) {r : Str}
    (hreads : getNthValueSafe 0 r ',' 32 = some form.ipAddress ∧
      (getNthValueSafe 1 r ',' 8).map atoi = some (atoi form.port) ∧
      (getNthValueSafe 2 r ',' 8).map atoi = some form.storedPort2 ∧
      (getNthValueSafe 3 r ',' 8).map atoi = some proto.num) (wanIp : Str) :
    portForwardCmds wanIp r = proto.rules.map fun p =>
      makePortForwardRule wanIp form.ipAddress p (atoi form.port) form.storedPort2 := by
  obtain ⟨hip, h₁, h₂, h₃⟩ := hreads
  obtain ⟨t₁, ht₁, heq₁⟩ := Option.map_eq_some_iff.mp h₁
  obtain ⟨t₂, ht₂, heq₂⟩ := Option.map_eq_some_iff.mp h₂
  obtain ⟨t₃, ht₃, heq₃⟩ := Option.map_eq_some_iff.mp h₃
  have hof : Proto.ofNum proto.num = some proto := by cases proto <;> decide
  have hprt := (h.storedPort2_bounds hpos).2
  simp [portForwardCmds, hip, ht₁, ht₂, ht₃, heq₁, heq₂, heq₃, hof, h.ip, h.port, hprt, guard]

omit h in
theorem shellSpecial_char : ∀ c ∈ shellSpecial, c.isDigit = false ∧ c ≠ '.' := by
  simp only [shellSpecial, forall_mem_cons]
  exact ⟨by decide, by decide, by decide, by decide, forall_mem_nil _⟩

omit h in
theorem shellSpecial_not_mem_text (p : Proto) : ∀ c ∈ shellSpecial,
    c ∉ "iptables -t nat -A port_forward -j DNAT -d ".toList ∧ c ∉ p.option ∧ c ∉ " ".toList ∧
      c ∉ "--dport ".toList ∧ c ∉ ":".toList ∧ c ∉ "--to ".toList := by
  simp only [shellSpecial, forall_mem_cons]
  cases p <;> exact ⟨by decide, by decide, by decide, by decide, forall_mem_nil _⟩

omit h in
theorem shellSpecial_not_mem (hquad : IsDottedQuad form.ipAddress) {prf prt : Int} (hprf : 0 ≤ prf)
    (hprt : 0 ≤ prt) {wanIp : Str} (hwan : ∀ c ∈ shellSpecial, c ∉ wanIp) (p : Proto) :
    ∀ c ∈ shellSpecial, c ∉ makePortForwardRule wanIp form.ipAddress p prf prt := by
  intro c hc
  obtain ⟨hdigit, hdot⟩ := shellSpecial_char c hc
  obtain ⟨hfront, hoption, hspace, hdport, hcolon, hto⟩ := shellSpecial_not_mem_text p c hc
  have hip : c ∉ form.ipAddress := hquad.not_mem hdigit hdot
  have hk : c ∉ fmtInt prf := not_mem_fmtInt_nonneg hprf hdigit
  have hj : c ∉ fmtInt prt := not_mem_fmtInt_nonneg hprt hdigit
  have hone : c ∉ "--dport ".toList ++ fmtInt prf ++ " ".toList :=
    not_mem_append (not_mem_append hdport hk) hspace
  have htwo : c ∉ "--dport ".toList ++ fmtInt prf ++ ":".toList ++ fmtInt prt ++ " ".toList :=
    not_mem_append (not_mem_append (not_mem_append
      (not_mem_append hdport hk) hcolon) hj) hspace
  have hstart : c ∉ "iptables -t nat -A port_forward -j DNAT -d ".toList ++ wanIp ++ " ".toList ++
      p.option :=
    not_mem_append (not_mem_append (not_mem_append hfront (hwan c hc)) hspace) hoption
  unfold makePortForwardRule
  apply not_mem_append _ hspace
  apply not_mem_append _ hip
  apply not_mem_append _ hto
  apply not_mem_append hstart
  split_ifs
  · exact htwo
  · exact hone

end

section

variable {form : ForwardForm} {rec rules : Str} {proto : Proto}

theorem appendRule_eq (rec : Str) (hrules : rules ≠ []) (hroom : rules.length < 8191) :
    appendRule rules rec = rules ++ ";".toList ++ rec.take (8190 - rules.length) := by
  rw [appendRule, if_neg hrules, append_assoc, append_assoc, take_append,
    take_of_length_le hroom.le, show 8191 - rules.length = (8190 - rules.length) + 1 by omega]
  rfl

theorem getNthValueSafe_last (rules : Str) {r : Str} (hr : ';' ∉ r) :
    getNums (rules ++ ";".toList ++ r) ';' = getNums rules ';' + 1 ∧
      getNthValueSafe (getNums rules ';') (rules ++ ";".toList ++ r) ';' 256 =
        some (r.take 255) := by
  have hsplit : (rules ++ ";".toList ++ r).splitOn ';' = rules.splitOn ';' ++ [r] := by
    rw [append_assoc]
    change (rules ++ ';' :: r).splitOn ';' = _
    rw [splitOn_append_cons_self, splitOn_eq_singleton hr]
  constructor
  · rw [getNums_eq, getNums_eq, hsplit, length_append, length_singleton]
  · rw [getNthValueSafe_eq, hsplit, getNums_eq, getElem?_concat_length]
    rfl

theorem appendsRecord_of_plain (h : ForwardAccepted form rec proto)
    (hplain : PlainForward form rules) :
    AppendsRecord form rules (appendRule rules rec) (rec.take (8190 - rules.length)) := by
  obtain ⟨⟨hany, hspace, hip⟩, hpos, hrules, hroom⟩ := hplain
  have hquad : IsDottedQuad form.ipAddress := by
    apply isDottedQuad_of_inetAton _ hspace
    have hvalid := h.ip
    rw [isIpValid, decide_eq_false hany.1, decide_eq_false hany.2] at hvalid
    exact hvalid
  have hlen := length_recordText form proto
  have htext := appendRule_eq rec hrules (by omega)
  have hsemi : ';' ∉ rec.take (8190 - rules.length) := fun hmem =>
    h.semicolon_not_mem hquad hpos (mem_of_mem_take hmem)
  obtain ⟨hnums, hlast⟩ := getNthValueSafe_last rules hsemi
  have hport := length_fmtInt_port ⟨hpos.le, h.port.2⟩
  have hport2 := length_fmtInt_port (h.storedPort2_bounds hpos)
  have hwhole : (recordText form proto).length ≤ min 255 (8190 - rules.length) :=
    le_min (by omega) (by omega)
  have hreads := h.reads hquad hip hpos hwhole
  rw [← take_take] at hreads
  rw [htext]
  constructor
  case appended => rw [if_neg hrules]
  case nums => exact hnums
  case quad => exact hquad
  case range => exact h.range hpos
  case reads =>
    refine ⟨_, proto, hlast, h.protoOf, hreads.1, hreads.2.1, hreads.2.2.1, hreads.2.2.2, ?_⟩
    intro wanIp
    rw [h.cmds_eq hpos hreads]
    refine ⟨rfl, fun hwan cmd hcmd => ?_⟩
    obtain ⟨p, -, rfl⟩ := mem_map.mp hcmd
    exact shellSpecial_not_mem hquad hpos.le (h.storedPort2_bounds hpos).1 hwan p

theorem plain_of_appendsRecord (h : ForwardAccepted form rec proto) {r : Str}
    (happ : AppendsRecord form rules (appendRule rules rec) r) : PlainForward form rules := by
  have hpos : 0 < atoi form.port := happ.range.1
  have hsemi := h.semicolon_not_mem happ.quad hpos
  have hnums := happ.nums
  have hroom : rules.length < 8191 := by
    by_contra hfull
    have hcut : appendRule rules rec = rules.take 8191 := by
      have hne : rules ≠ [] := by
        rintro rfl
        simp at hfull
      rw [appendRule, if_neg hne, append_assoc, take_append_of_le_length (Nat.not_lt.mp hfull)]
    have hle := (take_sublist 8191 rules).count_le ';'
    rw [hcut, getNums, getNums] at hnums
    omega
  have hrules : rules ≠ [] := by
    rintro rfl
    have hnone : (appendRule [] rec).count ';' = 0 :=
      count_eq_zero.mpr fun hmem => hsemi (mem_of_mem_take hmem)
    rw [getNums, hnone] at hnums
    cases hnums
  have hsemi' : ';' ∉ rec.take (8190 - rules.length) := fun hmem =>
    hsemi (mem_of_mem_take hmem)
  obtain ⟨r', proto', hlast, hproto, hip, -, -, hnum, -⟩ := happ.reads
  rw [appendRule_eq rec hrules hroom, (getNthValueSafe_last rules hsemi').2, take_take] at hlast
  obtain rfl := Option.some.inj hlast
  have hipLen : form.ipAddress.length ≤ 31 := length_le_of_getNthValueSafe hip
  have hwhole : (recordText form proto).length ≤ min 255 (8190 - rules.length) := by
    by_contra hcut
    obtain ⟨x, hx, hatoi⟩ := Option.map_eq_some_iff.mp hnum
    rw [h.cut happ.quad hpos (Nat.not_le.mp hcut) hx] at hatoi
    cases proto' <;> exact absurd hatoi (by decide)
  have hlen := length_recordText form proto
  exact ⟨⟨happ.quad.ne_any, happ.quad.not_isspace, hipLen⟩, hpos, hrules, by omega⟩

theorem appendRule_eq_self (hrec : rec ≠ []) : appendRule rules rec = rules ↔ rules.length = 8191 := by
  rw [appendRule]
  split_ifs with hnil
  · subst hnil
    refine iff_of_false (fun htake => ?_) (by decide)
    rw [take_eq_nil_iff] at htake
    exact htake.elim (by decide) hrec
  · rw [append_assoc]
    constructor
    · intro htake
      have hlen := congrArg List.length htake
      have hsemi : (";".toList ++ rec).length = rec.length + 1 := by simp
      rw [length_take, length_append, hsemi] at hlen
      omega
    · intro hlen
      rw [take_append_of_le_length hlen.ge, take_of_length_le hlen.le]

/-- **Port-forwarding forms**: the list stays as it is or gets one record that is read as the form was
    accepted, exactly if the form is refused, the list fills its buffer, or the form is plain. -/
theorem port_forward_form_iff (env : Env) (form : ForwardForm) (s : Box) :
    StoresPlainly env form s ↔
      portForwardRecord form = none ∨ (s.nvram .portForwardRules).length = 8191 ∨
        PlainForward form (s.nvram .portForwardRules) := by
  rw [StoresPlainly]
  cases hrec : portForwardRecord form with
  | none =>
    refine iff_of_true (.inl ?_) (.inl rfl)
    rw [portForward, hrec]
  | some rec =>
    obtain ⟨proto, h⟩ := portForwardRecord_cases hrec
    have hne : rec ≠ [] := by
      rw [h.text]
      exact List.append_ne_nil_of_right_ne_nil _ (List.cons_ne_nil _ _)
    have hsome : ¬ some rec = none := Option.some_ne_none rec
    rw [portForward_rules env hrec, appendRule_eq_self hne, or_iff_right hsome]
    constructor
    · rintro (hfull | ⟨r, happ⟩)
      · exact .inl hfull
      · exact .inr (plain_of_appendsRecord h happ)
    · rintro (hfull | hplain)
      · exact .inl hfull
      · exact .inr ⟨_, appendsRecord_of_plain h hplain⟩

/-- An address with a command behind it. -/
theorem port_forward_stores_command :
    ¬ ∀ (env : Env) (form : ForwardForm) (s : Box), StoresPlainly env form s := by
  intro h
  have hstores := h ⟨[], none, fun _ => true⟩
    ⟨"1.2.3.4 |reboot".toList, "80".toList, [], "TCP".toList, []⟩
    ⟨fun _ => "192.168.1.2,80,0,1,".toList, fun _ => []⟩
  rcases hstores with hsame | ⟨r, happ⟩
  · rw [portForward_rules _ (show portForwardRecord _ =
      some "1.2.3.4 |reboot,80,0,1,".toList by decide)] at hsame
    revert hsame
    decide
  · exact happ.quad.not_mem (show Char.isDigit ' ' = false from rfl) (by decide) (by decide)

end

end RalinkSdk.Firewall
