import RalinkSdk.Firewall.Rules

/-!
# Firewall settings of the web server: the request handlers

The forms of the pages for port forwarding and web filters (`formDefineFirewall`).  A form
variable that the request does not carry reads as the empty text, so a form is a record of texts.
Each handler stores what it was given and, if it gets that far, flushes its chain and installs
rules again.

Not modelled are the DMZ chain, which the port-forwarding handlers restart as well, the flush of
the connection tracking, and the answer pages.
-/

namespace RalinkSdk.Firewall

/-! ## Forms -/

/-- The form of `portForward` and of `singlePortForward`: the second port is `toPort` of the one
    and `privatePort` of the other. -/
structure ForwardForm where
  ipAddress : Str
  port : Str
  port2 : Str
  protocol : Str
  comment : Str

structure DeleteForm where
  /-- the variable `delRule%d` (`DR%d`) is there -/
  delRule : Nat → Bool
  /-- the allocations of `deleArray` and of the copy of the rules succeed -/
  malloc : Bool
  /-- what `malloc` left in `deleArray` -/
  junk : Nat → Int

/-- The form of `websURLFilter` and of `websHostFilter`. -/
structure FilterForm where
  rule : Str
  /-- the allocation of the longer list succeeds -/
  malloc : Bool

structure ContentForm where
  proxy : Str
  java : Str
  activex : Str
  cookies : Str

inductive Request where
  | portForward (form : ForwardForm)
  | portForwardDelete (form : DeleteForm)
  | portForwardBasicSettings (enable : Str)
  | singlePortForward (form : ForwardForm)
  | singlePortForwardDelete (form : DeleteForm)
  | singlePortForwardBasicSettings (enable : Str)
  | webContentFilter (form : ContentForm)
  | websURLBasicSettings (enable : Str)
  | websURLFilter (form : FilterForm)
  | websURLFilterDelete (form : DeleteForm)
  | websHostFilter (form : FilterForm)
  | websHostFilterDelete (form : DeleteForm)

/-! ## Deleting from a list -/

/-- The numbers of the rules to delete, and behind them what `malloc` left. -/
def deleArray (form : DeleteForm) (count : Nat) : List Int :=
  let chosen := (List.range count).filter form.delRule
  chosen.map Int.ofNat ++ (List.range (count - chosen.length)).map form.junk

/-- The list without the chosen rules, `none` where the handlers return before they store it. -/
def deletedRules (form : DeleteForm) (rules : Str) : Option Str :=
  if rules = [] then none
  else if form.malloc = false then none
  else if (List.range (getRuleNums rules)).any form.delRule = false then none
  else some (deleteNthValueMulti (deleArray form (getRuleNums rules)) rules ';')

/-! ## Port forwarding -/

/-- The protocol names of the form. -/
def protocolOf (s : Str) : Option Proto :=
  if s = "TCP".toList then some .tcp
  else if s = "UDP".toList then some .udp
  else if s = "TCP&UDP".toList then some .tcpUdp
  else none

/-- A comment is short and has no separator in it. -/
def commentOk (comment : Str) : Prop :=
  comment.length ≤ 32 ∧ ';' ∉ comment ∧ ',' ∉ comment

instance (comment : Str) : Decidable (commentOk comment) :=
  inferInstanceAs (Decidable (_ ∧ _ ∧ _))

/-- The record of a rule: `"%s,%d,%d,%d,%s"`. -/
def ruleText (ipAddress : Str) (port port2 : Int) (proto : Proto) (comment : Str) : Str :=
  ipAddress ++ ",".toList ++ fmtInt port ++ ",".toList ++ fmtInt port2 ++ ",".toList ++
    fmtInt proto.num ++ ",".toList ++ comment

/-- `toPort` of a form: nothing, or a port that is not below the first. -/
def toPortOf (prf : Int) (prt : Str) : Option Int :=
  if prt = [] then some 0
  else if atoi prt = 0 ∨ atoi prt < prf ∨ 65535 < atoi prt then none
  else some (atoi prt)

/-- The record that `portForward` stores, `none` where it returns. -/
def portForwardRecord (form : ForwardForm) : Option Str := do
  guard (isIpValid form.ipAddress)
  guard (atoi form.port ≠ 0 ∧ atoi form.port ≤ 65535)
  let prt ← toPortOf (atoi form.port) form.port2
  let proto ← protocolOf form.protocol
  guard (commentOk form.comment)
  return ruleText form.ipAddress (atoi form.port) prt proto form.comment

/-- The record that `singlePortForward` stores, `none` where it returns. -/
def singlePortForwardRecord (form : ForwardForm) : Option Str := do
  guard (isIpValid form.ipAddress)
  guard (atoi form.port ≠ 0 ∧ atoi form.port ≤ 65535)
  guard (atoi form.port2 ≠ 0 ∧ atoi form.port2 ≤ 65535)
  let proto ← protocolOf form.protocol
  guard (commentOk form.comment)
  return ruleText form.ipAddress (atoi form.port) (atoi form.port2) proto form.comment

/-- `snprintf(rule, sizeof(rule), ..)`: a record behind those there are. -/
def appendRule (rules rec : Str) : Str :=
  (if rules = [] then rec else rules ++ ";".toList ++ rec).take 8191

variable (env : Env)

def portForward (form : ForwardForm) (s : Box) : Box :=
  match portForwardRecord form with
  | none => s
  | some rec =>
    let nv := nvramSet s.nvram .portForwardEnable "1".toList
    let nv := nvramSet nv .portForwardRules (appendRule (nv .portForwardRules) rec)
    iptablesPortForwardRun env (flush .portForward { s with nvram := nv })

def portForwardDelete (form : DeleteForm) (s : Box) : Box :=
  match deletedRules form (s.nvram .portForwardRules) with
  | none => s
  | some rules =>
    let s := { s with nvram := nvramSet s.nvram .portForwardRules rules }
    -- restart iptables if it is running
    if atoi (s.nvram .portForwardEnable) = 0 then s
    else iptablesPortForwardRun env (flush .portForward s)

def portForwardBasicSettings (enable : Str) (s : Box) : Box :=
  if atoi enable = 0 then
    flush .portForward { s with nvram := nvramSet s.nvram .portForwardEnable "0".toList }
  else
    iptablesPortForwardRun env
      (flush .portForward { s with nvram := nvramSet s.nvram .portForwardEnable "1".toList })

def singlePortForward (form : ForwardForm) (s : Box) : Box :=
  match singlePortForwardRecord form with
  | none => s
  | some rec =>
    let nv := nvramSet s.nvram .singlePortForwardEnable "1".toList
    let nv := nvramSet nv .singlePortForwardRules (appendRule (nv .singlePortForwardRules) rec)
    iptablesSinglePortForwardRun env (flush .portForward { s with nvram := nv })

def singlePortForwardDelete (form : DeleteForm) (s : Box) : Box :=
  match deletedRules form (s.nvram .singlePortForwardRules) with
  | none => s
  | some rules =>
    let s := { s with nvram := nvramSet s.nvram .singlePortForwardRules rules }
    if atoi (s.nvram .singlePortForwardEnable) = 0 then s
    else iptablesSinglePortForwardRun env (flush .portForward s)

def singlePortForwardBasicSettings (enable : Str) (s : Box) : Box :=
  if atoi enable = 0 then
    flush .portForward { s with nvram := nvramSet s.nvram .singlePortForwardEnable "0".toList }
  else
    iptablesSinglePortForwardRun env
      (flush .portForward { s with nvram := nvramSet s.nvram .singlePortForwardEnable "1".toList })

/-! ## Web filters -/

/-- What `webContentFilter` stores for one check box. -/
def flagText (s : Str) : Str := if atoi s = 0 then "0".toList else "1".toList

def webContentFilter (form : ContentForm) (s : Box) : Box :=
  let nv := nvramSet s.nvram .websFilterProxy (flagText form.proxy)
  let nv := nvramSet nv .websFilterJava (flagText form.java)
  let nv := nvramSet nv .websFilterActivex (flagText form.activex)
  let nv := nvramSet nv .websFilterCookies (flagText form.cookies)
  iptablesWebsFilterRun env (flush .webFilter { s with nvram := nv })

def websURLBasicSettings (enable : Str) (s : Box) : Box :=
  let s := { s with nvram := nvramSet s.nvram .websURLFilterEnabled (flagText enable) }
  if atoi enable = 0 then flush .webFilter s else iptablesWebsFilterRun env (flush .webFilter s)

/-- The list of filters with the new one, `none` where the handlers return. -/
def addedFilter (form : FilterForm) (filters : Str) : Option Str :=
  if ';' ∈ form.rule then none
  else if filters = [] then some form.rule
  else if form.malloc = false then none
  else some (filters ++ ";".toList ++ form.rule)

def websURLFilter (form : FilterForm) (s : Box) : Box :=
  match addedFilter form (s.nvram .websURLFilters) with
  | none => s
  | some filters =>
    let s := flush .webFilter { s with nvram := nvramSet s.nvram .websURLFilters filters }
    if atoi (s.nvram .websURLFilterEnabled) = 0 then s else iptablesWebsFilterRun env s

def websHostFilter (form : FilterForm) (s : Box) : Box :=
  match addedFilter form (s.nvram .websHostFilters) with
  | none => s
  | some filters =>
    iptablesWebsFilterRun env
      (flush .webFilter { s with nvram := nvramSet s.nvram .websHostFilters filters })

def websFilterDelete (key : Key) (form : DeleteForm) (s : Box) : Box :=
  match deletedRules form (s.nvram key) with
  | none => s
  | some filters =>
    iptablesWebsFilterRun env (flush .webFilter { s with nvram := nvramSet s.nvram key filters })

def websURLFilterDelete (form : DeleteForm) (s : Box) : Box :=
  websFilterDelete env .websURLFilters form s

def websHostFilterDelete (form : DeleteForm) (s : Box) : Box :=
  websFilterDelete env .websHostFilters form s

/-! ## The server -/

def handle (s : Box) : Request → Box
  | .portForward form => portForward env form s
  | .portForwardDelete form => portForwardDelete env form s
  | .portForwardBasicSettings enable => portForwardBasicSettings env enable s
  | .singlePortForward form => singlePortForward env form s
  | .singlePortForwardDelete form => singlePortForwardDelete env form s
  | .singlePortForwardBasicSettings enable => singlePortForwardBasicSettings env enable s
  | .webContentFilter form => webContentFilter env form s
  | .websURLBasicSettings enable => websURLBasicSettings env enable s
  | .websURLFilter form => websURLFilter env form s
  | .websURLFilterDelete form => websURLFilterDelete env form s
  | .websHostFilter form => websHostFilter env form s
  | .websHostFilterDelete form => websHostFilterDelete env form s

end RalinkSdk.Firewall
