import RalinkSdk.Lib.Loop
import RalinkSdk.Firewall.Records
import RalinkSdk.Firewall.IpPortFilter

/-!
# Firewall settings of the web server: the table of the IP and port filter

The page for IP and port filters lists the stored rules with `showIPPortFilterRulesASP`.  Its loop
counts `i` up by hand, at its end and before each `continue`, but for the `continue` of a protocol
number that it does not know.

## Source

`user/goahead/src_tongyong/firewall.c`, `utils.c`.
-/

namespace RalinkSdk.Firewall

open Lib StateTransition List

/-! ## The table -/

def shownProto (n : Int) : Option FilterProto :=
  if n = 1 then some .tcp
  else if n = 2 then some .udp
  else if n = 5 then some .none
  else if n = 4 then some .icmp
  else none

structure ShownRule where
  mac : Str
  sip : Str
  proto : FilterProto
  dprf : Int
  dprt : Int
  comment : Str

/-- The first values of a record and the number of its protocol; `none` where the loop goes on to the
    next record.  The second addresses are read, but not checked. -/
def shownFront (rec : Str) : Option (Str × Int) := do
  let sip ← getNthValueSafe 0 rec ',' 32
  guard (isIpNetmaskValid [] sip)
  let _ ← getNthValueSafe 1 rec ',' 32
  let sprf := atoi (← getNthValueSafe 2 rec ',' 8)
  guard (sprf ≤ 65535)
  let sprt := atoi (← getNthValueSafe 3 rec ',' 8)
  guard (sprt ≤ 65535)
  let dip ← getNthValueSafe 4 rec ',' 32
  guard (isIpNetmaskValid [] dip)
  let _ ← getNthValueSafe 5 rec ',' 32
  let proto := atoi (← getNthValueSafe 8 rec ',' 8)
  return (if sip = "any/0".toList then "-".toList else sip, proto)

/-- The values behind the protocol; `none` where the loop goes on to the next record. -/
def shownBack (rec sip : Str) (proto : FilterProto) : Option ShownRule := do
  let dprf := atoi (← getNthValueSafe 6 rec ',' 8)
  guard (dprf ≤ 65535)
  let dprt := atoi (← getNthValueSafe 7 rec ',' 8)
  guard (dprt ≤ 65535)
  let _ ← getNthValueSafe 9 rec ',' 4
  let comment ← getNthValueSafe 10 rec ',' 16
  let mac ← getNthValueSafe 11 rec ',' 32
  return { mac := if mac = [] then "-".toList else mac, sip, proto, dprf, dprt, comment }

def protoCell : FilterProto → Str
  | .tcp => "<td align=center> TCP </td>".toList
  | .udp => "<td align=center> UDP </td>".toList
  | .icmp => "<td align=center> ICMP </td>".toList
  | .none => "<td align=center> - </td>".toList

/-- A destination port of 0 is shown as "any". -/
def portCell (dprf dprt : Int) : Str :=
  if dprt ≠ 0 then
    "<td align=center> ".toList ++ fmtInt dprf ++ " - ".toList ++ fmtInt dprt ++ " </td>".toList
  else if dprf = 0 then "<td align=center> - </td>".toList
  else "<td align=center> ".toList ++ fmtInt dprf ++ " </td>".toList

def commentCell (comment : Str) : Str :=
  if comment ≠ [] then "<td align=center> ".toList ++ comment ++ "</td>".toList
  else "<td align=center> &nbsp; </td>".toList

def ruleRow (i : Nat) (r : ShownRule) : Str :=
  "<tr>\n".toList ++
    "<td> ".toList ++ fmtInt (i + 1) ++ "&nbsp; <input type=\"checkbox\" name=\"delRule".toList ++
    fmtInt i ++ "\"> </td>".toList ++
    "<td align=center> ".toList ++ r.mac ++ " </td>".toList ++
    "<td align=center> ".toList ++ r.sip ++ " </td>".toList ++
    protoCell r.proto ++ portCell r.dprf r.dprt ++ commentCell r.comment ++
    "<td align=center id=pktCnt".toList ++ fmtInt i ++ ">-</td>".toList ++
    "</tr>\n".toList

/-- The last row, which shows the default policy. -/
def policyRow (i : Nat) (policy : Int) : Str :=
  let row := fun (id : String) =>
    "<tr><td align=center colspan=6 id=".toList ++ id.toList ++
      "><script>dw(JS_msg47)</script></td><td align=center id=pktCnt".toList ++ fmtInt i ++
      ">-</td></tr>".toList
  if policy = 0 then row "portCurrentFilterDefaultAccept"
  else if policy = 1 then row "portCurrentFilterDefaultDrop"
  else []

/-! ## The loop -/

inductive PassEnd where
  /-- `i++; continue` -/
  | skip
  /-- `continue` -/
  | again
  /-- the end of the body, with `i++` -/
  | row (text : Str)

/-- The body of the loop for record `i`. -/
def showRecord (i : Nat) (rec : Str) : PassEnd :=
  match shownFront rec with
  | none => .skip
  | some (sip, num) =>
    match shownProto num with
    | none => .again
    | some proto =>
      match shownBack rec sip proto with
      | none => .skip
      | some r => .row (ruleRow i r)

structure ShowState where
  i : Nat
  page : Str
deriving DecidableEq

/-- Before the loop. -/
def ShowState.start : ShowState := ⟨0, []⟩

/-- One pass of the loop; `none` where it is left. -/
def showPass (rules : Str) (s : ShowState) : Option ShowState :=
  match getNthValueSafe s.i rules ';' 256 with
  | none => none
  | some rec =>
    if rec = [] then none
    else
      match showRecord s.i rec with
      | .skip => some { s with i := s.i + 1 }
      | .again => some s
      | .row text => some ⟨s.i + 1, s.page ++ text⟩

/-- What `showIPPortFilterRulesASP` writes to the page, if it returns. -/
def showIPPortFilterRulesASP (rules defaultPolicy : Str) : Part Str :=
  if defaultPolicy = [] then Part.some []
  else
    (eval (showPass rules) ShowState.start).map fun s => s.page ++ policyRow s.i (atoi defaultPolicy)

/-! ## One record -/

/-- Value `k` of a record, as it is read into a buffer of `len` bytes. -/
def valueOf (rec : Str) (k len : Nat) : Str := ((rec.splitOn ',').getD k []).take (len - 1)

/-- A record with at least nine values whose source and destination address and source ports pass
    the checks, and whose protocol is none of the four. -/
structure UnknownProto (rec : Str) : Prop where
  values : 9 ≤ (rec.splitOn ',').length
  sip : isIpNetmaskValid [] (valueOf rec 0 32)
  sprf : atoi (valueOf rec 2 8) ≤ 65535
  sprt : atoi (valueOf rec 3 8) ≤ 65535
  dip : isIpNetmaskValid [] (valueOf rec 4 32)
  proto : atoi (valueOf rec 8 8) ≠ 1 ∧ atoi (valueOf rec 8 8) ≠ 2 ∧ atoi (valueOf rec 8 8) ≠ 4 ∧
    atoi (valueOf rec 8 8) ≠ 5

theorem getNthValueSafe_value {rec : Str} {k : Nat} (hk : k < (rec.splitOn ',').length) (len : Nat) :
    getNthValueSafe k rec ',' len = some (valueOf rec k len) := by
  rw [getNthValueSafe_eq, valueOf, getD_eq_getElem?_getD, getElem?_eq_getElem hk]
  rfl

theorem getNthValueSafe_eq_some {rec x : Str} {k len : Nat}
    (h : getNthValueSafe k rec ',' len = some x) :
    k < (rec.splitOn ',').length ∧ x = valueOf rec k len := by
  have hk : k < (rec.splitOn ',').length := by
    by_contra hge
    rw [getNthValueSafe_eq, getElem?_eq_none (Nat.not_lt.mp hge)] at h
    cases h
  rw [getNthValueSafe_value hk] at h
  exact ⟨hk, (Option.some.inj h).symm⟩

theorem shownProto_eq_none {n : Int} : shownProto n = none ↔ n ≠ 1 ∧ n ≠ 2 ∧ n ≠ 4 ∧ n ≠ 5 := by
  rw [shownProto]
  split_ifs <;> simp_all

theorem shownFront_eq_some {rec : Str} {num : Int} : (∃ sip, shownFront rec = some (sip, num)) ↔
      9 ≤ (rec.splitOn ',').length ∧ isIpNetmaskValid [] (valueOf rec 0 32) = true ∧
        atoi (valueOf rec 2 8) ≤ 65535 ∧ atoi (valueOf rec 3 8) ≤ 65535 ∧
        isIpNetmaskValid [] (valueOf rec 4 32) = true ∧ atoi (valueOf rec 8 8) = num := by
  by_cases hlen : 9 ≤ (rec.splitOn ',').length
  · have hget : ∀ k < 9, ∀ len, getNthValueSafe k rec ',' len = some (valueOf rec k len) :=
      fun k hk => getNthValueSafe_value (Nat.lt_of_lt_of_le hk hlen)
    simp only [shownFront, hget 0 (by decide), hget 1 (by decide), hget 2 (by decide),
      hget 3 (by decide), hget 4 (by decide), hget 5 (by decide), hget 8 (by decide),
      Option.bind_eq_bind, Option.bind_some, Option.bind_eq_some_iff, guard_eq_some]
    constructor
    · rintro ⟨sip, -, hsip, -, hsprf, -, hsprt, -, hdip, heq⟩
      exact ⟨hlen, hsip, hsprf, hsprt, hdip, (Prod.mk.inj (Option.some.inj heq)).2⟩
    · rintro ⟨-, hsip, hsprf, hsprt, hdip, rfl⟩
      exact ⟨_, (), hsip, (), hsprf, (), hsprt, (), hdip, rfl⟩
  · -- the ninth value is asked for last
    have hnone : getNthValueSafe 8 rec ',' 8 = none := by
      rw [Option.eq_none_iff_forall_not_mem]
      intro x hx
      exact hlen (getNthValueSafe_eq_some hx).1
    refine iff_of_false ?_ fun h => hlen h.1
    simp [shownFront, hnone]

/-- **The pass that counts nothing up** is that of a record which gets as far as its protocol and
    has a protocol that `switch(proto)` does not know. -/
theorem showRecord_again_iff (i : Nat) (rec : Str) :
    showRecord i rec = .again ↔ UnknownProto rec := by
  have hagain : showRecord i rec = .again ↔
      ∃ num, (∃ sip, shownFront rec = some (sip, num)) ∧ shownProto num = none := by
    rw [showRecord]
    constructor
    · -- only the `default` of `switch(proto)` goes on without `i++`
      intro h
      split at h
      · cases h
      · rename_i sip num hfront
        split at h
        · exact ⟨num, ⟨sip, hfront⟩, ‹_›⟩
        · split at h <;> cases h
    · rintro ⟨num, ⟨sip, hfront⟩, hproto⟩
      simp only [hfront, hproto]
  rw [hagain]
  constructor
  · rintro ⟨num, hfront, hproto⟩
    obtain ⟨hlen, hsip, hsprf, hsprt, hdip, rfl⟩ := shownFront_eq_some.mp hfront
    exact ⟨hlen, hsip, hsprf, hsprt, hdip, shownProto_eq_none.mp hproto⟩
  · intro h
    refine ⟨_, shownFront_eq_some.mpr ?_, shownProto_eq_none.mpr h.proto⟩
    exact ⟨h.values, h.sip, h.sprf, h.sprt, h.dip, rfl⟩

/-! ## The run of the loop -/

/-- The records that the loop can get to: those in front of the first empty one. -/
def shownRecords (rules : Str) : List Str := (records rules 256).takeWhile (· ≠ [])

theorem getElem_records (rules : Str) (i : Nat) :
    (records rules 256)[i]? = getNthValueSafe i rules ';' 256 := by
  rw [records_eq, getNthValueSafe_eq, getElem?_map]

theorem records_split (rules : Str) : ∃ behind, records rules 256 = shownRecords rules ++ behind ∧
      ∀ rec, behind.head? = some rec → rec = [] := by
  refine ⟨(records rules 256).dropWhile (· ≠ []), takeWhile_append_dropWhile.symm, ?_⟩
  intro rec hrec
  have hhead := head?_dropWhile_not (p := (· ≠ [])) (l := records rules 256)
  rw [hrec] at hhead
  simpa using hhead

theorem shownRecords_getElem {rules rec : Str} {i : Nat} (h : (shownRecords rules)[i]? = some rec) :
    getNthValueSafe i rules ';' 256 = some rec ∧ rec ≠ [] := by
  obtain ⟨behind, hsplit, -⟩ := records_split rules
  have hlt : i < (shownRecords rules).length := (List.getElem?_eq_some_iff.mp h).1
  constructor
  · rw [← getElem_records, hsplit, getElem?_append_left hlt]
    exact h
  · simpa using mem_takeWhile_imp (mem_of_getElem? h)

theorem showPass_end {rules : Str} {s : ShowState} (h : s.i = (shownRecords rules).length) :
    showPass rules s = none := by
  obtain ⟨behind, hsplit, hempty⟩ := records_split rules
  have hnext : getNthValueSafe s.i rules ';' 256 = behind.head? := by
    rw [← getElem_records, hsplit, h, getElem?_append_right le_rfl, Nat.sub_self, head?_eq_getElem?]
  rw [showPass, hnext]
  cases hrec : behind.head? with
  | none => rfl
  | some rec => exact if_pos (hempty rec hrec)

/-- **One pass** over a record stays where it is or goes on to the next record. -/
theorem showPass_shown {rules rec : Str} {s : ShowState}
    (h : (shownRecords rules)[s.i]? = some rec) : (UnknownProto rec ∧ showPass rules s = some s) ∨
      (¬ UnknownProto rec ∧ ∃ page, showPass rules s = some ⟨s.i + 1, page⟩) := by
  obtain ⟨hget, hne⟩ := shownRecords_getElem h
  simp only [showPass, hget, if_neg hne]
  by_cases hunknown : UnknownProto rec
  · rw [(showRecord_again_iff s.i rec).mpr hunknown]
    exact .inl ⟨hunknown, rfl⟩
  · refine .inr ⟨hunknown, ?_⟩
    cases hend : showRecord s.i rec with
    | skip => exact ⟨_, rfl⟩
    | again => exact absurd ((showRecord_again_iff s.i rec).mp hend) hunknown
    | row text => exact ⟨_, rfl⟩

variable {rules : Str}

theorem reached_le {s : ShowState} (h : Reaches (showPass rules) ShowState.start s) :
    s.i ≤ (shownRecords rules).length := by
  induction h with
  | refl => exact Nat.zero_le _
  | @tail s s' _ hpass ih =>
    have hsome : showPass rules s = some s' := hpass
    rcases Nat.eq_or_lt_of_le ih with hend | hlt
    · rw [showPass_end hend] at hsome
      cases hsome
    · rcases showPass_shown (getElem?_eq_getElem hlt) with ⟨-, hstay⟩ | ⟨-, page, hnext⟩
      · rw [hstay] at hsome
        exact Option.some.inj hsome ▸ ih
      · rw [hnext] at hsome
        exact Option.some.inj hsome ▸ hlt

theorem reaches_record {k : Nat} (hk : k ≤ (shownRecords rules).length)
    (hknown : ∀ j < k, ∀ rec, (shownRecords rules)[j]? = some rec → ¬ UnknownProto rec) :
    ∃ page, Reaches (showPass rules) ShowState.start ⟨k, page⟩ := by
  induction k with
  | zero => exact ⟨[], Relation.ReflTransGen.refl⟩
  | succ k ih =>
    obtain ⟨page, hreach⟩ := ih (Nat.le_of_succ_le hk) fun j hj => hknown j (Nat.lt_succ_of_lt hj)
    have hget : (shownRecords rules)[k]? = some (shownRecords rules)[k] :=
      getElem?_eq_getElem hk
    rcases showPass_shown (s := ⟨k, page⟩) hget with ⟨hunknown, -⟩ | ⟨-, page', hnext⟩
    -- the pass over record `k` does not stay
    · exact absurd hunknown (hknown k (Nat.lt_succ_self k) _ hget)
    · exact ⟨page', hreach.tail hnext⟩

theorem showPass_next (hknown : ∀ rec ∈ shownRecords rules, ¬ UnknownProto rec) {s s' : ShowState}
    (h : Reaches (showPass rules) ShowState.start s) (hpass : showPass rules s = some s') :
    s'.i = s.i + 1 ∧ s.i < (shownRecords rules).length := by
  rcases Nat.eq_or_lt_of_le (reached_le h) with hend | hlt
  · rw [showPass_end hend] at hpass
    cases hpass
  · refine ⟨?_, hlt⟩
    rcases showPass_shown (getElem?_eq_getElem hlt) with ⟨hunknown, -⟩ | ⟨-, page, hnext⟩
    · exact absurd hunknown (hknown _ (getElem_mem hlt))
    · rw [hnext] at hpass
      exact (Option.some.inj hpass ▸ rfl)

theorem showIPPortFilterRulesASP_dom {defaultPolicy : Str} :
    (showIPPortFilterRulesASP rules defaultPolicy).Dom ↔
      defaultPolicy = [] ∨ (eval (showPass rules) ShowState.start).Dom := by
  rw [showIPPortFilterRulesASP]
  split_ifs with h
  · exact iff_of_true trivial (.inl h)
  · rw [or_iff_right h]
    exact Iff.rfl

/-- The function returns, and each pass of its loop goes on to the next record or leaves the
    loop. -/
structure ShowTerminates (rules defaultPolicy : Str) : Prop where
  returns : (showIPPortFilterRulesASP rules defaultPolicy).Dom
  next : defaultPolicy ≠ [] → ∀ s, Reaches (showPass rules) ShowState.start s →
    ∀ s', showPass rules s = some s' → s'.i = s.i + 1

/-- **The table of the filter** is shown to its end exactly if there is no default policy, or if no
    record in front of the first empty one gets as far as its protocol and has one that is none of
    the four. -/
theorem show_terminates_iff (rules defaultPolicy : Str) : ShowTerminates rules defaultPolicy ↔
      defaultPolicy = [] ∨ ∀ rec ∈ shownRecords rules, ¬ UnknownProto rec := by
  constructor
  · intro h
    rcases showIPPortFilterRulesASP_dom.mp h.returns with hempty | hdom
    · exact .inl hempty
    · refine .inr ?_
      have hall : ∀ (k : Nat) (rec : Str), (shownRecords rules)[k]? = some rec → ¬ UnknownProto rec := by
        intro k
        induction k using Nat.strong_induction_on with
        | _ k ih =>
          intro rec hget hunknown
          -- the loop gets to this record and stays there
          have hk : k < (shownRecords rules).length := (List.getElem?_eq_some_iff.mp hget).1
          obtain ⟨page, hreach⟩ := reaches_record hk.le ih
          rcases showPass_shown (s := ⟨k, page⟩) hget with ⟨-, hstay⟩ | ⟨hknown, -⟩
          · exact not_dom_of_fixed hreach hstay hdom
          · exact hknown hunknown
      intro rec hrec
      obtain ⟨k, hget⟩ := List.mem_iff_getElem?.mp hrec
      exact hall k rec hget
  · rintro (hempty | hknown)
    · exact ⟨showIPPortFilterRulesASP_dom.mpr (.inl hempty), fun hne => absurd hempty hne⟩
    · constructor
      case returns =>
        -- each pass leaves one record less to show
        refine showIPPortFilterRulesASP_dom.mpr (.inr ?_)
        apply eval_dom_of_measure fun s => (shownRecords rules).length - s.i
        intro s hs s' hpass
        obtain ⟨hnext, hlt⟩ := showPass_next hknown hs hpass
        omega
      case next =>
        intro _ s hs s' hpass
        exact (showPass_next hknown hs hpass).1

/-- A record whose protocol is 3, which stands for TCP and UDP in the other lists. -/
theorem tcp_and_udp_hangs : ¬ ∀ rules defaultPolicy : Str, ShowTerminates rules defaultPolicy := by
  intro h
  have hreturns := (h "any/0,0,0,0,any/0,0,0,0,3,0,,".toList "0".toList).returns
  have hdom := (showIPPortFilterRulesASP_dom.mp hreturns).resolve_left (by decide)
  exact not_dom_of_fixed Relation.ReflTransGen.refl (by decide) hdom

end RalinkSdk.Firewall
