import RalinkSdk.Firewall.Records
import RalinkSdk.Firewall.IpPortFilter

/-!
# Firewall settings of the web server: what a command of the IP and port filter says

The command that `iptablesIPPortFilterRun` makes of a record is read as `iptables` reads it, into
what the rule matches.
-/

namespace RalinkSdk.Firewall

open Lib List

/-! ## Reading a command -/

/-- The words of a command line. -/
def words (s : Str) : List Str := (s.splitOn ' ').filter (· ≠ [])

/-- The value of an option; options and their values alternate. -/
def optionOf (name : Str) : List Str → Option Str
  | opt :: value :: rest => if opt = name then some value else optionOf name rest
  | _ => none

/-- What a rule matches, in the terms of the form, and its target. -/
@[ext]
structure Constraints where
  mac : Option Str
  src : Option Str
  dst : Option Str
  proto : Option Str
  sport : Option Str
  dport : Option Str
  target : Option Str
deriving DecidableEq

/-- An address option.  `iptables` ignores the name if a null mask is given, "like in any/0". -/
def addrConstraint (addr : Str) : Option Str := if addr = "any/0".toList then none else some addr

/-- What `iptables` is told; `none` if the command is none for `iptables`. -/
def readCommand (cmd : Str) : Option Constraints :=
  match words cmd with
  | [] => none
  | name :: options =>
    if name = "iptables".toList then
      some {
        mac := optionOf "--mac-source".toList options
        src := (optionOf "-s".toList options).bind addrConstraint
        dst := (optionOf "-d".toList options).bind addrConstraint
        proto := optionOf "-p".toList options
        sport := optionOf "--sport".toList options
        dport := optionOf "--dport".toList options
        target := optionOf "-j".toList options }
    else none

/-- A line that starts with words. -/
def line (ws : List Str) (rest : Str) : Str := ws.foldr (fun w s => w ++ ' ' :: s) rest

theorem line_append (ws ws' : List Str) (rest : Str) :
    line (ws ++ ws') rest = line ws (line ws' rest) := foldr_append

/-- A word is not empty and has no space in it. -/
def IsWord (w : Str) : Prop := w ≠ [] ∧ ' ' ∉ w

instance (w : Str) : Decidable (IsWord w) := inferInstanceAs (Decidable (_ ∧ _))

theorem words_line {ws : List Str} (h : ∀ w ∈ ws, IsWord w) (rest : Str) :
    words (line ws rest) = ws ++ words rest := by
  induction ws with
  | nil => rfl
  | cons w ws ih =>
    have hw := h w mem_cons_self
    have hrest := ih fun w' hw' => h w' (mem_cons_of_mem w hw')
    change words (w ++ ' ' :: line ws rest) = _
    rw [words, splitOn_append_cons_self_of_not_mem hw.2,
      filter_cons_of_pos (by simpa using hw.1), cons_append, ← hrest]
    rfl

/-- Options and their values, as words. -/
def flat (options : List (Str × Str)) : List Str := options.flatMap fun o => [o.1, o.2]

theorem flat_append (options options' : List (Str × Str)) :
    flat (options ++ options') = flat options ++ flat options' := flatMap_append

theorem optionOf_flat (name : Str) (options : List (Str × Str)) (rest : List Str) :
    optionOf name (flat options ++ rest) = (options.lookup name).or (optionOf name rest) := by
  induction options with
  | nil => simp [flat]
  | cons o options ih =>
    simp only [flat, flatMap_cons, cons_append, nil_append] at ih ⊢
    rw [optionOf, ih, lookup_cons]
    by_cases h : o.1 = name
    · simp [h]
    · have hne : (name == o.1) = false := by simpa using Ne.symm h
      rw [if_neg h, hne]

/-! ## The options of a command -/

/-- What is between the name of the program and the protocol. -/
def frontOptions (spifw : Int) (a : FilterArgs) : List (Str × Str) :=
  [("-A".toList, "macipport_filter".toList)] ++
    (if a.action = 0 ∧ spifw ≠ 0 then
      [("-m".toList, "state".toList), ("--state".toList, "NEW,INVALID".toList)] else []) ++
    (if a.mac = [] then []
      else [("-m".toList, "mac".toList), ("--mac-source".toList, a.mac)]) ++
    [("-s".toList, a.sip), ("-d".toList, a.dip)]

/-- The value of a port option. -/
def portText (prf prt : Int) : Str :=
  if prt ≠ 0 then fmtInt prf ++ ":".toList ++ fmtInt prt else fmtInt prf

def portOptions (name : String) (prf prt : Int) : List (Str × Str) :=
  if prf = 0 then [] else [(name.toList, portText prf prt)]

def protoOptions (a : FilterArgs) : List (Str × Str) :=
  if a.proto = 5 then []
  else if a.proto = 4 then [("-p".toList, "icmp".toList)]
  else
    [("-p".toList, if a.proto = 1 then "tcp".toList else "udp".toList)] ++
      portOptions "--sport" a.sprf a.sprt ++ portOptions "--dport" a.dprf a.dprt

/-- The values that stand in a command as they are. -/
structure PlainArgs (a : FilterArgs) : Prop where
  sip : IsWord a.sip
  dip : IsWord a.dip
  mac : a.mac = [] ∨ IsWord a.mac

variable {a : FilterArgs}

theorem front_eq_line (haction : a.action = 0 ∨ a.action = 1) (spifw : Int) (rest : Str) :
    commandFront spifw a.action ++
      (if a.mac = [] then [] else "-m mac --mac-source ".toList ++ a.mac ++ " ".toList) ++
      "-s ".toList ++ a.sip ++ " ".toList ++ "-d ".toList ++ a.dip ++ " ".toList ++ rest =
      line ("iptables".toList :: flat (frontOptions spifw a)) rest := by
  have hfront : ∀ rest, commandFront spifw a.action ++ rest =
      line ("iptables".toList :: flat ([("-A".toList, "macipport_filter".toList)] ++
        (if a.action = 0 ∧ spifw ≠ 0 then
          [("-m".toList, "state".toList), ("--state".toList, "NEW,INVALID".toList)] else []))) rest := by
    intro rest
    rcases haction with h | h
    · rw [commandFront, if_pos h]
      by_cases hspi : spifw = 0
      · rw [if_pos hspi, if_neg (by simp [hspi])]
        rfl
      · rw [if_neg hspi, if_pos ⟨h, hspi⟩]
        rfl
    · rw [commandFront, if_neg (by omega), if_pos h, if_neg (by omega)]
      rfl
  have hmac : ∀ rest, (if a.mac = [] then []
        else "-m mac --mac-source ".toList ++ a.mac ++ " ".toList) ++ rest =
      line (flat (if a.mac = [] then []
        else [("-m".toList, "mac".toList), ("--mac-source".toList, a.mac)])) rest := by
    intro rest
    split_ifs
    · rfl
    · rw [append_assoc, append_assoc]
      rfl
  have hflat : flat (frontOptions spifw a) = flat ([("-A".toList, "macipport_filter".toList)] ++
        (if a.action = 0 ∧ spifw ≠ 0 then
          [("-m".toList, "state".toList), ("--state".toList, "NEW,INVALID".toList)] else [])) ++
      flat (if a.mac = [] then []
        else [("-m".toList, "mac".toList), ("--mac-source".toList, a.mac)]) ++
      flat [("-s".toList, a.sip), ("-d".toList, a.dip)] := by
    simp only [frontOptions, flat_append]
  rw [hflat, ← cons_append, ← cons_append, line_append, line_append, ← hfront, ← hmac]
  simp only [append_assoc]
  rfl

theorem portOption_eq_line (name : String) (prf prt : Int) (rest : Str) :
    portOption name prf prt ++ rest = line (flat (portOptions name prf prt)) rest := by
  rw [portOption, portOptions, portText]
  split_ifs
  · rfl
  · simp [line, flat]
  · simp [line, flat]

/-- What stands behind the options of a rule. -/
def lineEnd (a : FilterArgs) : Str :=
  (if a.proto = 5 then " ".toList else []) ++ commandTarget a.action

theorem makeIPPortFilterRule_eq_line (gap : Str) (spifw : Int)
    (haction : a.action = 0 ∨ a.action = 1)
    (hproto : a.proto = 1 ∨ a.proto = 2 ∨ a.proto = 4 ∨ a.proto = 5) :
    makeIPPortFilterRule gap spifw a =
      line ("iptables".toList :: flat (frontOptions spifw a ++ protoOptions a)) (lineEnd a) := by
  have hports : ∀ (proto rest : Str),
      line (flat ([("-p".toList, proto)] ++ (portOptions "--sport" a.sprf a.sprt ++
        portOptions "--dport" a.dprf a.dprt))) rest =
      line ["-p".toList, proto] (portOption "--sport" a.sprf a.sprt ++
        (portOption "--dport" a.dprf a.dprt ++ rest)) := by
    intro proto rest
    rw [portOption_eq_line, portOption_eq_line, flat_append, flat_append, line_append, line_append]
    rfl
  rw [flat_append, ← cons_append, line_append, ← front_eq_line haction, makeIPPortFilterRule,
    lineEnd, protoOptions]
  rcases hproto with h | h | h | h
  · simp only [h, reduceIte, Int.reduceEq, append_assoc, nil_append]
    rw [hports]
    rfl
  · simp only [h, reduceIte, Int.reduceEq, append_assoc, nil_append]
    rw [hports]
    rfl
  · simp only [h, reduceIte, Int.reduceEq, append_assoc, nil_append]
    rfl
  · simp only [h, reduceIte, append_assoc]
    rfl

/-- What the arguments of a rule constrain. -/
def constraintsOf (a : FilterArgs) : Constraints where
  mac := if a.mac = [] then none else some a.mac
  src := addrConstraint a.sip
  dst := addrConstraint a.dip
  proto := if a.proto = 5 then none else if a.proto = 4 then some "icmp".toList
    else if a.proto = 1 then some "tcp".toList else some "udp".toList
  sport := if a.proto = 5 ∨ a.proto = 4 ∨ a.sprf = 0 then none else some (portText a.sprf a.sprt)
  dport := if a.proto = 5 ∨ a.proto = 4 ∨ a.dprf = 0 then none else some (portText a.dprf a.dprt)
  target := some (if a.action = 0 then "DROP".toList else "ACCEPT".toList)

theorem constraintsOf_sport (a : FilterArgs) : (constraintsOf a).sport =
    if a.proto = 5 ∨ a.proto = 4 ∨ a.sprf = 0 then none else some (portText a.sprf a.sprt) :=
  rfl

theorem constraintsOf_dport (a : FilterArgs) : (constraintsOf a).dport =
    if a.proto = 5 ∨ a.proto = 4 ∨ a.dprf = 0 then none else some (portText a.dprf a.dprt) :=
  rfl

theorem isWord_fmtInt (n : Int) : IsWord (fmtInt n) := by
  cases n with
  | ofNat n => exact ⟨fmtInt_ne_nil n, not_mem_fmtInt rfl⟩
  | negSucc n =>
    -- the sign is no space either
    have htext : fmtInt (Int.negSucc n) = '-' :: fmtInt (n + 1 : Nat) := by
      change ("-" ++ Nat.repr (n + 1)).toList = _
      rw [String.toList_append, Nat.toList_repr, fmtInt_natCast]
      rfl
    rw [htext]
    refine ⟨cons_ne_nil _ _, ?_⟩
    rw [mem_cons, not_or]
    exact ⟨by decide, not_mem_fmtInt rfl⟩

theorem isWord_portText (prf prt : Int) : IsWord (portText prf prt) := by
  have h := isWord_fmtInt prf
  have h' := isWord_fmtInt prt
  rw [portText]
  split_ifs
  · refine ⟨by simp, ?_⟩
    simp only [mem_append, not_or]
    exact ⟨⟨h.2, by decide⟩, h'.2⟩
  · exact h

/-- Options whose names and values are words. -/
def AreWords (options : List (Str × Str)) : Prop := ∀ o ∈ options, IsWord o.1 ∧ IsWord o.2

theorem AreWords.append {options options' : List (Str × Str)} (h : AreWords options)
    (h' : AreWords options') : AreWords (options ++ options') :=
  forall_mem_append.mpr ⟨h, h'⟩

theorem AreWords.flat {options : List (Str × Str)} (h : AreWords options) :
    ∀ w ∈ flat options, IsWord w := by
  intro w hw
  obtain ⟨o, ho, hmem⟩ := mem_flatMap.mp hw
  rcases mem_cons.mp hmem with rfl | hmem
  · exact (h o ho).1
  · rw [mem_singleton.mp hmem]
    exact (h o ho).2

theorem areWords_frontOptions (h : PlainArgs a) (spifw : Int) :
    AreWords (frontOptions spifw a) := by
  refine (((show AreWords [_] from ?_).append ?_).append ?_).append ?_
  · unfold AreWords
    decide
  · split_ifs
    · unfold AreWords
      decide
    · exact forall_mem_nil _
  · split_ifs with hmac
    · exact forall_mem_nil _
    · simp only [AreWords, forall_mem_cons]
      exact ⟨by decide, ⟨by decide, h.mac.resolve_left hmac⟩, forall_mem_nil _⟩
  · simp only [AreWords, forall_mem_cons]
    exact ⟨⟨by decide, h.sip⟩, ⟨by decide, h.dip⟩, forall_mem_nil _⟩

theorem areWords_portOptions {name : String} (hname : IsWord name.toList) (prf prt : Int) :
    AreWords (portOptions name prf prt) := by
  rw [portOptions]
  split_ifs
  · exact forall_mem_nil _
  · simp only [AreWords, forall_mem_cons]
    exact ⟨⟨hname, isWord_portText prf prt⟩, forall_mem_nil _⟩

theorem areWords_protoOptions (a : FilterArgs) : AreWords (protoOptions a) := by
  rw [protoOptions]
  split_ifs
  · exact forall_mem_nil _
  · unfold AreWords
    decide
  · refine (AreWords.append ?_ (areWords_portOptions (by decide) _ _)).append
      (areWords_portOptions (by decide) _ _)
    unfold AreWords
    decide
  · refine (AreWords.append ?_ (areWords_portOptions (by decide) _ _)).append
      (areWords_portOptions (by decide) _ _)
    unfold AreWords
    decide

theorem words_lineEnd (haction : a.action = 0 ∨ a.action = 1) :
    words (lineEnd a) = ["-j".toList, if a.action = 0 then "DROP".toList else "ACCEPT".toList] := by
  rw [lineEnd, commandTarget]
  rcases haction with h | h
  · simp only [h, reduceIte]
    split_ifs <;> decide
  · simp only [h, reduceIte, Int.reduceEq]
    split_ifs <;> decide

theorem lookup_eq_none {options : List (Str × Str)} {names : List Str}
    (h : ∀ o ∈ options, o.1 ∈ names) {name : Str} (hname : name ∉ names) :
    options.lookup name = none := by
  rw [lookup_eq_none_iff]
  intro o ho
  have hne : name ≠ o.1 := fun heq => hname (heq ▸ h o ho)
  simpa using hne

theorem frontOptions_names (spifw : Int) (a : FilterArgs) : ∀ o ∈ frontOptions spifw a,
    o.1 ∈ ["-A".toList, "-m".toList, "--state".toList, "--mac-source".toList, "-s".toList,
      "-d".toList] := by
  rw [frontOptions]
  split_ifs <;> simp

theorem protoOptions_names (a : FilterArgs) : ∀ o ∈ protoOptions a,
    o.1 ∈ ["-p".toList, "--sport".toList, "--dport".toList] := by
  rw [protoOptions, portOptions, portOptions]
  split_ifs <;> simp

theorem lookup_mac (spifw : Int) (a : FilterArgs) :
    (frontOptions spifw a).lookup "--mac-source".toList = if a.mac = [] then none else some a.mac := by
  rw [frontOptions]
  split_ifs <;> rfl

theorem lookup_src (spifw : Int) (a : FilterArgs) :
    (frontOptions spifw a).lookup "-s".toList = some a.sip := by
  rw [frontOptions]
  split_ifs <;> rfl

theorem lookup_dst (spifw : Int) (a : FilterArgs) :
    (frontOptions spifw a).lookup "-d".toList = some a.dip := by
  rw [frontOptions]
  split_ifs <;> rfl

theorem lookup_proto (a : FilterArgs) :
    (protoOptions a).lookup "-p".toList = (constraintsOf a).proto := by
  simp only [protoOptions, constraintsOf]
  split_ifs <;> rfl

theorem lookup_portOptions (name : String) (option : Str) (prf prt : Int) :
    (portOptions name prf prt).lookup option =
      if prf = 0 ∨ option ≠ name.toList then none else some (portText prf prt) := by
  rw [portOptions]
  split_ifs with hprf hoption hoption
  · rfl
  · exact absurd (.inl hprf) hoption
  · have hne : (option == name.toList) = false := by simpa [hprf] using hoption
    rw [lookup_cons, hne]
    rfl
  · have heq : (option == name.toList) = true := by simpa [hprf] using hoption
    rw [lookup_cons, heq]

theorem lookup_ports {option : Str} (hne : option ≠ "-p".toList) (a : FilterArgs) :
    (protoOptions a).lookup option =
      if a.proto = 5 ∨ a.proto = 4 then none
      else ((portOptions "--sport" a.sprf a.sprt).lookup option).or
        ((portOptions "--dport" a.dprf a.dprt).lookup option) := by
  have hp : (option == "-p".toList) = false := by simpa using hne
  by_cases h₅ : a.proto = 5
  · rw [if_pos (.inl h₅), protoOptions, if_pos h₅, lookup_nil]
  · by_cases h₄ : a.proto = 4
    · rw [if_pos (.inr h₄), protoOptions, if_neg h₅, if_pos h₄, lookup_cons, hp]
      rfl
    · have hports : ¬ (a.proto = 5 ∨ a.proto = 4) := not_or.mpr ⟨h₅, h₄⟩
      rw [if_neg hports, protoOptions, if_neg h₅, if_neg h₄, append_assoc,
        singleton_append, lookup_cons, hp, lookup_append]

theorem lookup_sport (a : FilterArgs) :
    (protoOptions a).lookup "--sport".toList = (constraintsOf a).sport := by
  rw [lookup_ports (by decide), lookup_portOptions, lookup_portOptions, constraintsOf_sport]
  simp [ite_or]

theorem lookup_dport (a : FilterArgs) :
    (protoOptions a).lookup "--dport".toList = (constraintsOf a).dport := by
  rw [lookup_ports (by decide), lookup_portOptions, lookup_portOptions, constraintsOf_dport]
  simp [ite_or]

/-- **Reading a command**: `iptables` is told what the arguments of the rule say. -/
theorem readCommand_make (gap : Str) (spifw : Int) (h : PlainArgs a)
    (haction : a.action = 0 ∨ a.action = 1)
    (hproto : a.proto = 1 ∨ a.proto = 2 ∨ a.proto = 4 ∨ a.proto = 5) :
    readCommand (makeIPPortFilterRule gap spifw a) = some (constraintsOf a) := by
  have hwords : words (makeIPPortFilterRule gap spifw a) = "iptables".toList ::
      (flat (frontOptions spifw a ++ protoOptions a) ++
        ["-j".toList, if a.action = 0 then "DROP".toList else "ACCEPT".toList]) := by
    have hall := ((areWords_frontOptions h spifw).append (areWords_protoOptions a)).flat
    rw [makeIPPortFilterRule_eq_line gap spifw haction hproto,
      words_line (forall_mem_cons.mpr ⟨by decide, hall⟩), words_lineEnd haction,
      cons_append]
  -- an option is looked up in front of the protocol, behind it and at the end of the line
  have hfront : ∀ {name : Str}, _ → (frontOptions spifw a).lookup name = none :=
    lookup_eq_none (frontOptions_names spifw a)
  have hback : ∀ {name : Str}, _ → (protoOptions a).lookup name = none :=
    lookup_eq_none (protoOptions_names a)
  have hend : ∀ {name target : Str}, "-j".toList ≠ name →
      optionOf name ["-j".toList, target] = none := fun hne => if_neg hne
  rw [readCommand, hwords]
  simp only [reduceIte, optionOf_flat, lookup_append]
  rw [lookup_mac, lookup_src, lookup_dst, lookup_proto, lookup_sport, lookup_dport,
    hback (by decide), hback (by decide), hback (by decide), hback (by decide), hfront (by decide),
    hfront (by decide), hfront (by decide), hfront (by decide), hend (by decide), hend (by decide),
    hend (by decide), hend (by decide), hend (by decide), hend (by decide)]
  simp only [Option.or_none, Option.none_or]
  rfl

theorem readCommand_addresses {gap : Str} {spifw : Int} (h : PlainArgs a)
    {c : Constraints} (hread : readCommand (makeIPPortFilterRule gap spifw a) = some c) :
    c.src = addrConstraint a.sip ∧ c.dst = addrConstraint a.dip := by
  obtain ⟨rest, hrest⟩ : ∃ rest, makeIPPortFilterRule gap spifw a =
      commandFront spifw a.action ++
      (if a.mac = [] then [] else "-m mac --mac-source ".toList ++ a.mac ++ " ".toList) ++
      "-s ".toList ++ a.sip ++ " ".toList ++ "-d ".toList ++ a.dip ++ " ".toList ++ rest := by
    simp only [makeIPPortFilterRule]
    split_ifs <;> simp only [append_assoc, append_cancel_left_eq] <;> exact ⟨_, rfl⟩
  by_cases haction : a.action = 0 ∨ a.action = 1
  · have hall : ∀ w ∈ "iptables".toList :: flat (frontOptions spifw a), IsWord w :=
      forall_mem_cons.mpr ⟨by decide, (areWords_frontOptions h spifw).flat⟩
    rw [hrest, front_eq_line haction, readCommand, words_line hall, cons_append] at hread
    simp only [reduceIte, optionOf_flat, lookup_src, lookup_dst] at hread
    obtain rfl := Option.some.inj hread
    exact ⟨rfl, rfl⟩
  · -- without an action nothing names the program
    exfalso
    rw [not_or] at haction
    rw [hrest, commandFront, if_neg haction.1, if_neg haction.2] at hread
    obtain ⟨name, rest', hline, hname⟩ : ∃ name rest', [] ++
        (if a.mac = [] then [] else "-m mac --mac-source ".toList ++ a.mac ++ " ".toList) ++
        "-s ".toList ++ a.sip ++ " ".toList ++ "-d ".toList ++ a.dip ++ " ".toList ++ rest =
        line [name] rest' ∧ (name = "-m".toList ∨ name = "-s".toList) := by
      simp only [append_assoc, nil_append]
      split_ifs
      · exact ⟨_, _, rfl, .inr rfl⟩
      · exact ⟨_, _, rfl, .inl rfl⟩
    have hword : ∀ w ∈ [name], IsWord w := by
      intro w hw
      rw [mem_singleton.mp hw]
      rcases hname with rfl | rfl <;> decide
    rw [hline, readCommand, words_line hword, singleton_append] at hread
    rcases hname with rfl | rfl <;> cases hread

/-! ## Addresses -/

def addrChar (c : Char) : Bool :=
  c.isDigit || c = '.' || c = '/' || c = 'a' || c = 'n' || c = 'y'

variable {s : Str}

theorem isIpNetmaskValid_short (hlen : s.length < 32) (behind : Str) :
    isIpNetmaskValid behind s = isIpNetmaskValid [] s := by
  simp [isIpNetmaskValid, hlen]

theorem addrChar_of_valid (hlen : s.length < 32) {behind : Str}
    (h : isIpNetmaskValid behind s = true) : s ≠ [] ∧ ∀ c ∈ s, addrChar c = true := by
  rw [isIpNetmaskValid_short hlen, isIpNetmaskValid] at h
  simp only [hlen, reduceIte] at h
  split_ifs at h with hne hany hnum
  · refine ⟨hne, ?_⟩
    rw [Bool.or_eq_true, decide_eq_true_eq, decide_eq_true_eq] at hany
    rcases hany with rfl | rfl <;> simp [addrChar]
  · refine ⟨hne, ?_⟩
    intro c hc
    have hall : isAllNumAndSlash s = true := by
      by_contra hnot
      simp [hnot] at hnum
    have hchar := List.all_eq_true.mp hall c hc
    rw [addrChar, hchar]
    rfl

theorem not_mem_of_valid (hlen : s.length < 32) {behind : Str}
    (h : isIpNetmaskValid behind s = true) {c : Char} (hc : addrChar c = false) : c ∉ s := by
  intro hmem
  rw [(addrChar_of_valid hlen h).2 c hmem] at hc
  cases hc

theorem macChar_of_valid (h : isMacValid s = true) :
    s.length = 17 ∧ ∀ c ∈ s, isxdigit c = true ∨ c = ':' := by
  simp only [isMacValid, Bool.and_eq_true, decide_eq_true_eq, List.all_eq_true, mem_range] at h
  obtain ⟨⟨⟨hlen, hgroups⟩, h₁₅⟩, h₁₆⟩ := h
  refine ⟨hlen, ?_⟩
  intro c hc
  obtain ⟨i, hi, rfl⟩ := getElem_of_mem hc
  have hget : s.getD i ' ' = s[i] := getD_eq_getElem s ' ' hi
  rw [← hget]
  -- five groups of two digits and a colon, and two digits more
  by_cases hlast : i < 15
  · have hgroup := hgroups (i / 3) (by omega)
    have hpos : i = i / 3 * 3 ∨ i = i / 3 * 3 + 1 ∨ i = i / 3 * 3 + 2 := by omega
    rcases hpos with h | h | h <;> rw [h]
    · exact .inl hgroup.1.1
    · exact .inl hgroup.1.2
    · exact .inr hgroup.2
  · have hpos : i = 15 ∨ i = 16 := by omega
    rcases hpos with rfl | rfl
    · exact .inl h₁₅
    · exact .inl h₁₆

theorem not_mem_of_macValid (h : isMacValid s = true) {c : Char}
    (hx : isxdigit c = false) (hc : c ≠ ':') : c ∉ s := by
  intro hmem
  rcases (macChar_of_valid h).2 c hmem with h' | h'
  · rw [hx] at h'
    cases h'
  · exact hc h'

theorem plainArgs_of_valid (hsip : isIpNetmaskValid [] a.sip = true)
    (hsipLen : a.sip.length < 32) (hdip : isIpNetmaskValid [] a.dip = true)
    (hdipLen : a.dip.length < 32) (hmac : a.mac = [] ∨ isMacValid a.mac = true) : PlainArgs a := by
  refine ⟨⟨(addrChar_of_valid hsipLen hsip).1, not_mem_of_valid hsipLen hsip rfl⟩,
    ⟨(addrChar_of_valid hdipLen hdip).1, not_mem_of_valid hdipLen hdip rfl⟩, ?_⟩
  rcases hmac with hmac | hmac
  · exact .inl hmac
  · refine .inr ⟨?_, not_mem_of_macValid hmac rfl (by decide)⟩
    intro hnil
    have hlen := (macChar_of_valid hmac).1
    rw [hnil] at hlen
    cases hlen

/-! ## Records -/

theorem readRecord_cases {rec : Str} (h : readRecord rec = some a) :
    (getNthValueSafe 0 rec ',' 32 = some a.sip ∧ isIpNetmaskValid [] a.sip = true) ∧
    (getNthValueSafe 4 rec ',' 32 = some a.dip ∧ isIpNetmaskValid [] a.dip = true) ∧
    (getNthValueSafe 11 rec ',' 32 = some a.mac ∧ (a.mac = [] ∨ isMacValid a.mac = true)) := by
  simp only [readRecord, Option.bind_eq_bind, Option.bind_eq_some_iff, guard_eq_some] at h
  obtain ⟨sip, hsip, -, hsipValid, _, -, -, -, _, -, -, -, dip, hdip, -, hdipValid, _, -, -, -, _, -,
    -, -, _, -, _, -, mac, hmac, -, hmacValid, heq⟩ := h
  obtain rfl := Option.some.inj heq
  exact ⟨⟨hsip, hsipValid⟩, ⟨hdip, hdipValid⟩, ⟨hmac, hmacValid⟩⟩

/-- Arguments that a record keeps. -/
structure StorableArgs (a : FilterArgs) (comment : Str) : Prop where
  sip : isIpNetmaskValid [] a.sip = true ∧ a.sip.length ≤ 31
  dip : isIpNetmaskValid [] a.dip = true ∧ a.dip.length ≤ 31
  sprf : 0 ≤ a.sprf ∧ a.sprf ≤ 65535
  sprt : 0 ≤ a.sprt ∧ a.sprt ≤ 65535
  dprf : 0 ≤ a.dprf ∧ a.dprf ≤ 65535
  dprt : 0 ≤ a.dprt ∧ a.dprt ≤ 65535
  proto : a.proto = 1 ∨ a.proto = 2 ∨ a.proto = 4 ∨ a.proto = 5
  action : a.action = 0 ∨ a.action = 1
  comment : ',' ∉ comment ∧ comment.length ≤ 32
  mac : ',' ∉ a.mac ∧ a.mac.length ≤ 17

/-- The values of a record in front of the comment and the hardware address. -/
def recordFront (a : FilterArgs) : List Str :=
  [a.sip, "0".toList, fmtInt a.sprf, fmtInt a.sprt, a.dip, "0".toList, fmtInt a.dprf,
    fmtInt a.dprt, fmtInt a.proto, fmtInt a.action]

variable {comment : Str}

theorem StorableArgs.not_mem (h : StorableArgs a comment) :
    ∀ item ∈ recordFront a ++ [comment, a.mac], ',' ∉ item := by
  have hport : ∀ {n : Int}, 0 ≤ n → ',' ∉ fmtInt n := fun hn => not_mem_fmtInt_nonneg hn rfl
  have hproto : 0 ≤ a.proto := by have := h.proto; omega
  have haction : 0 ≤ a.action := by have := h.action; omega
  have hsip : ',' ∉ a.sip := not_mem_of_valid (by have := h.sip.2; omega) h.sip.1 rfl
  have hdip : ',' ∉ a.dip := not_mem_of_valid (by have := h.dip.2; omega) h.dip.1 rfl
  simp only [recordFront, cons_append, nil_append, forall_mem_cons]
  exact ⟨hsip, by decide, hport h.sprf.1, hport h.sprt.1, hdip, by decide, hport h.dprf.1,
    hport h.dprt.1, hport hproto, hport haction, h.comment.1, h.mac.1, forall_mem_nil _⟩

/-- **A record is read as it was stored**, if its hardware address is one. -/
theorem readRecord_filterText (h : StorableArgs a comment) : readRecord (filterText a comment) =
      if a.mac = [] ∨ isMacValid a.mac = true then some a else none := by
  have hget := getNthValueSafe_intercalate (by simp [recordFront]) h.not_mem
  have htext : filterText a comment = [','].intercalate (recordFront a ++ [comment, a.mac]) := rfl
  have hproto : atoi ((fmtInt a.proto).take 7) = a.proto :=
    atoi_take_fmtInt (by have := h.proto; omega)
  have haction : atoi ((fmtInt a.action).take 3) = a.action := by
    rcases h.action with h | h <;> rw [h] <;> decide
  -- every value comes back, and the numbers have the values they were printed from
  rw [readRecord, htext]
  simp only [hget]
  simp only [recordFront, cons_append, nil_append, getElem?_cons_zero, getElem?_cons_succ,
    Option.map_some, Option.bind_eq_bind, Option.bind_some, atoi_take_fmtInt h.sprf,
    atoi_take_fmtInt h.sprt, atoi_take_fmtInt h.dprf, atoi_take_fmtInt h.dprt, hproto, haction]
  rw [take_of_length_le h.sip.2, take_of_length_le h.dip.2,
    take_of_length_le (h.mac.2.trans (by decide))]
  simp only [guard, h.sip.1, h.dip.1, h.sprf.2, h.sprt.2, h.dprf.2, h.dprt.2, reduceIte]
  split_ifs <;> rfl

/-- The text of a record up to its comment. -/
def frontText (a : FilterArgs) (comment : Str) : Str :=
  [','].intercalate (recordFront a ++ [comment])

theorem filterText_eq (a : FilterArgs) (comment : Str) :
    filterText a comment = frontText a comment ++ ',' :: a.mac := by
  change [','].intercalate (recordFront a ++ [comment] ++ [a.mac]) = _
  rw [frontText, recordFront]
  simp

theorem StorableArgs.mac_cut_off (h : StorableArgs a comment)
    (k : Nat) : getNthValueSafe 11 ((frontText a comment).take k) ',' 32 = none := by
  have hitems : ∀ item ∈ recordFront a ++ [comment], ',' ∉ item := by
    intro item hitem
    apply h.not_mem item
    rcases mem_append.mp hitem with hi | hi
    · exact mem_append_left _ hi
    · rw [mem_singleton.mp hi]
      simp
  have hcount := length_splitOn ',' (frontText a comment)
  rw [frontText, splitOn_intercalate ',' hitems (by simp), length_append,
    length_singleton, show (recordFront a).length = 10 from rfl, ← frontText] at hcount
  -- cutting adds no comma
  have hle := (take_sublist k (frontText a comment)).count_le ','
  rw [getNthValueSafe_eq, getElem?_eq_none, Option.map_none]
  rw [length_splitOn]
  omega

theorem take_filterText (a : FilterArgs) (comment : Str) (j : Nat) :
    (filterText a comment).take ((frontText a comment).length + (j + 1)) =
      filterText { a with mac := a.mac.take j } comment := by
  rw [filterText_eq, take_length_add_append, take_succ_cons]
  exact (filterText_eq { a with mac := a.mac.take j } comment).symm

theorem StorableArgs.take_mac (h : StorableArgs a comment)
    (j : Nat) : StorableArgs { a with mac := a.mac.take j } comment :=
  { h with mac := ⟨fun hmem => h.mac.1 (mem_of_mem_take hmem),
      (length_take_le' j a.mac).trans h.mac.2⟩ }

theorem not_isMacValid_take {mac : Str} (h : isMacValid mac = true) {j : Nat}
    (hj : j < mac.length) : isMacValid (mac.take j) ≠ true := by
  intro hvalid
  have hlen := (macChar_of_valid h).1
  have hcut := (macChar_of_valid hvalid).1
  rw [length_take] at hcut
  omega

/-- **A record that was cut** is none any more, or has lost the hardware address it had. -/
theorem readRecord_cut {a b : FilterArgs} (h : StorableArgs a comment)
    (hmac : a.mac = [] ∨ isMacValid a.mac = true) {k : Nat} (hk : k < (filterText a comment).length)
    (hread : readRecord ((filterText a comment).take k) = some b) :
    a.mac ≠ [] ∧ b = { a with mac := [] } := by
  by_cases hfront : k ≤ (frontText a comment).length
  · -- the value behind the eleventh comma is not there
    exfalso
    rw [filterText_eq, take_append_of_le_length hfront] at hread
    have hvalue := (readRecord_cases hread).2.2.1
    rw [h.mac_cut_off k] at hvalue
    cases hvalue
  · obtain ⟨j, rfl⟩ : ∃ j, k = (frontText a comment).length + (j + 1) :=
      ⟨k - (frontText a comment).length - 1, by omega⟩
    have hj : j < a.mac.length := by
      rw [filterText_eq, length_append, length_cons] at hk
      omega
    have hne : a.mac ≠ [] := by
      intro hnil
      rw [hnil] at hj
      cases hj
    rw [take_filterText, readRecord_filterText (h.take_mac j)] at hread
    split_ifs at hread with hvalid
    · -- only an empty remainder is still read
      have hcut := not_isMacValid_take (hmac.resolve_left hne) hj
      have hnil : a.mac.take j = [] := hvalid.resolve_right hcut
      refine ⟨hne, ?_⟩
      rw [← Option.some.inj hread, hnil]

theorem StorableArgs.length_le (h : StorableArgs a comment) :
    (filterText a comment).length ≤ 255 := by
  have hproto : (fmtInt a.proto).length ≤ 5 := length_fmtInt_port (by have := h.proto; omega)
  have haction : (fmtInt a.action).length ≤ 5 := length_fmtInt_port (by have := h.action; omega)
  have hsum := length_intercalate ',' (show recordFront a ++ [comment, a.mac] ≠ [] by simp)
  have h₁ := h.sip.2
  have h₂ := h.dip.2
  have h₃ := length_fmtInt_port h.sprf
  have h₄ := length_fmtInt_port h.sprt
  have h₅ := length_fmtInt_port h.dprf
  have h₆ := length_fmtInt_port h.dprt
  have h₇ := h.comment.2
  have h₈ := h.mac.2
  rw [filterText]
  simp only [recordFront, cons_append, nil_append, map_cons, map_nil,
    sum_cons, sum_nil, show "0".toList.length = 1 from rfl] at hsum
  omega

end RalinkSdk.Firewall
