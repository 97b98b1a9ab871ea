import RalinkSdk.Firewall.Handlers

/-!
# Firewall settings of the web server: the IP and port filter

The page for IP and port filters stores its rules in `IPPortFilterRules`, twelve values to a
record, and `iptablesIPPortFilterRun` turns every record into a command that appends to the chain
`macipport_filter`.  The filter has its own settings and its own chain, so it has its own state.

A form variable is `none` if the request does not carry it; `websGetVar` then returns the default
that the handler names.

## Source

`user/goahead/src_tongyong/firewall.c`.
-/

namespace RalinkSdk.Firewall

/-! ## Checks -/

def isxdigit (c : Char) : Bool :=
  c.isDigit || ('a' ≤ c && c ≤ 'f') || ('A' ≤ c && c ≤ 'F')

def isMacValid (str : Str) : Bool :=
  str.length = 17 &&
    (List.range 5).all (fun i => isxdigit (str.getD (i * 3) ' ') &&
      isxdigit (str.getD (i * 3 + 1) ' ') && str.getD (i * 3 + 2) ' ' = ':') &&
    isxdigit (str.getD 15 ' ') && isxdigit (str.getD 16 ' ')

def isNumOnly (str : Str) : Bool := str.all Char.isDigit

def isAllNumAndSlash (str : Str) : Bool :=
  str.all fun c => c.isDigit || c = '.' || c = '/'

def isOnlyOneSlash (str : Str) : Bool := str.count '/' ≤ 1

/-- `isIpNetmaskValid`.  `strncpy` into `str[32]` writes no NUL behind 32 characters, and the checks
    then read on into what stands behind `str`. -/
def isIpNetmaskValid (behind s : Str) : Bool :=
  let str := if s.length < 32 then s else s.take 32 ++ behind
  if s = [] then false
  else if str = "any".toList || str = "any/0".toList then true
  else if !isAllNumAndSlash str || !isOnlyOneSlash str then false
  else
    match str.dropWhile (· ≠ '/') with
    | [] => inetAton str
    | _ :: slash =>
      if slash = [] || !isNumOnly slash then false
      else if atoi slash < 0 || 32 < atoi slash then false
      else inetAton (str.takeWhile (· ≠ '/'))

/-! ## State -/

/-- The nvram values of the filter, and its chain. -/
structure FilterBox where
  /-- `IPPortFilterEnable` -/
  enable : Str
  /-- `IPPortFilterRules` -/
  rules : Str
  /-- `DefaultFirewallPolicy` -/
  defaultPolicy : Str
  /-- `SPIFWEnabled` -/
  spifw : Str
  /-- the append commands that `iptables` accepted -/
  chain : List Str

def iptablesIPPortFilterFlush (s : FilterBox) : FilterBox := { s with chain := [] }

/-- `doSystem` of a command that appends to the chain. -/
def FilterBox.doSystem (env : Env) (s : FilterBox) (cmd : Str) : FilterBox :=
  if env.iptables cmd then { s with chain := s.chain ++ [cmd] } else s

/-! ## Commands -/

inductive FilterProto where
  | tcp
  | udp
  | icmp
  | none
deriving DecidableEq, Repr

def FilterProto.num : FilterProto → Int
  | .tcp => 1
  | .udp => 2
  | .icmp => 4
  | .none => 5

inductive FilterAction where
  | drop
  | accept
deriving DecidableEq, Repr

def FilterAction.num : FilterAction → Int
  | .drop => 0
  | .accept => 1

/-- The option for a range of ports; without a first port there is none. -/
def portOption (name : String) (prf prt : Int) : Str :=
  if prf = 0 then []
  else if prt ≠ 0 then
    name.toList ++ " ".toList ++ fmtInt prf ++ ":".toList ++ fmtInt prt ++ " ".toList
  else name.toList ++ " ".toList ++ fmtInt prf ++ " ".toList

/-- What a record holds, as `iptablesIPPortFilterRun` gives it to `makeIPPortFilterRule`. -/
structure FilterArgs where
  mac : Str
  sip : Str
  sprf : Int
  sprt : Int
  dip : Str
  dprf : Int
  dprt : Int
  proto : Int
  action : Int

/-- The front of a command.  An action that is neither writes nothing. -/
def commandFront (spifw action : Int) : Str :=
  if action = 0 then
    if spifw = 0 then "iptables -A macipport_filter ".toList
    else "iptables -A macipport_filter -m state --state NEW,INVALID ".toList
  else if action = 1 then "iptables -A macipport_filter ".toList
  else []

def commandTarget (action : Int) : Str :=
  if action = 0 then "-j DROP".toList else if action = 1 then "-j ACCEPT".toList else []

/-- `makeIPPortFilterRule`.  With a protocol number that the form never stores `pos` moves past
    bytes that were not written: `gap` is what the text reads from there on. -/
def makeIPPortFilterRule (gap : Str) (spifw : Int) (a : FilterArgs) : Str :=
  let front := commandFront spifw a.action ++
    (if a.mac = [] then [] else "-m mac --mac-source ".toList ++ a.mac ++ " ".toList) ++
    "-s ".toList ++ a.sip ++ " ".toList ++ "-d ".toList ++ a.dip ++ " ".toList
  let ports := portOption "--sport" a.sprf a.sprt ++ portOption "--dport" a.dprf a.dprt
  if a.proto = 5 then front ++ " ".toList ++ commandTarget a.action
  else if a.proto = 4 then front ++ "-p icmp ".toList ++ commandTarget a.action
  else if a.proto = 1 then front ++ "-p tcp ".toList ++ ports ++ commandTarget a.action
  else if a.proto = 2 then front ++ "-p udp ".toList ++ ports ++ commandTarget a.action
  else front ++ gap

/-- The values of a record, `none` where the loop of `iptablesIPPortFilterRun` goes on to the next
    one.  An address has at most 31 characters here, so that nothing behind `str` is read. -/
def readRecord (rec : Str) : Option FilterArgs := do
  let sip ← getNthValueSafe 0 rec ',' 32
  guard (isIpNetmaskValid [] sip)
  let sprf := atoi (← getNthValueSafe 2 rec ',' 8)
  guard (sprf ≤ 65535)
  let sprt := atoi (← getNthValueSafe 3 rec ',' 8)
  guard (sprt ≤ 65535)
  let dip ← getNthValueSafe 4 rec ',' 32
  guard (isIpNetmaskValid [] dip)
  let dprf := atoi (← getNthValueSafe 6 rec ',' 8)
  guard (dprf ≤ 65535)
  let dprt := atoi (← getNthValueSafe 7 rec ',' 8)
  guard (dprt ≤ 65535)
  let proto := atoi (← getNthValueSafe 8 rec ',' 8)
  let action := atoi (← getNthValueSafe 9 rec ',' 4)
  let mac ← getNthValueSafe 11 rec ',' 32
  guard (mac = [] ∨ isMacValid mac)
  return { mac, sip, sprf, sprt, dip, dprf, dprt, proto, action }

variable (gap : Str) (env : Env)

/-- The command of one record, in the loop of `iptablesIPPortFilterRun`. -/
def ipPortFilterCmd (spifw : Int) (rec : Str) : Option Str :=
  (readRecord rec).map (makeIPPortFilterRule gap spifw)

/-- The commands that `iptablesIPPortFilterRun` gives to `doSystem`. -/
def ipPortFilterCmds (s : FilterBox) : List Str :=
  if atoi s.enable = 0 then []
  else
    let policy := atoi s.defaultPolicy
    -- the default policy is drop
    (if policy = 1 ∧ atoi s.spifw ≠ 0 then
      ["iptables -t filter -A macipport_filter -m state --state RELATED,ESTABLISHED -j ACCEPT".toList]
      else []) ++
    (records s.rules 256).filterMap (ipPortFilterCmd gap (atoi s.spifw)) ++
    (if policy = 0 then ["iptables -t filter -A macipport_filter -j ACCEPT".toList]
      else if policy = 1 then ["iptables -t filter -A macipport_filter -j DROP".toList]
      else [])

def iptablesIPPortFilterRun (s : FilterBox) : FilterBox :=
  (ipPortFilterCmds gap s).foldl (FilterBox.doSystem env) s

theorem iptablesIPPortFilterRun_rules (s : FilterBox) :
    (iptablesIPPortFilterRun gap env s).rules = s.rules := by
  rw [iptablesIPPortFilterRun]
  generalize ipPortFilterCmds gap s = cmds
  induction cmds generalizing s with
  | nil => rfl
  | cons cmd cmds ih =>
    rw [List.foldl_cons, ih, FilterBox.doSystem]
    split_ifs <;> rfl

/-! ## Handlers -/

structure IpPortForm where
  macAddress : Option Str
  sipAddress : Option Str
  sFromPort : Option Str
  sToPort : Option Str
  dipAddress : Option Str
  dFromPort : Option Str
  dToPort : Option Str
  protocol : Option Str
  action : Option Str
  comment : Option Str
  /-- what stands behind `str` when the source address is checked -/
  behindSip : Str
  /-- what stands behind `str` when the destination address is checked -/
  behindDip : Str

/-- The protocol names of the form. -/
def filterProtoOf (s : Str) : Option FilterProto :=
  if s = "TCP".toList then some .tcp
  else if s = "UDP".toList then some .udp
  else if s = "None".toList then some .none
  else if s = "ICMP".toList then some .icmp
  else none

def filterActionOf (s : Str) : Option FilterAction :=
  if s = "Accept".toList then some .accept
  else if s = "Drop".toList then some .drop
  else none

/-- The number that is stored for a port of the form, `none` where the handler returns. -/
def filterPortOf (proto : FilterProto) (s : Str) : Option Int :=
  if s = [] ∨ proto = .none ∨ proto = .icmp then some 0
  else if atoi s = 0 ∨ 65535 < atoi s then none
  else some (atoi s)

/-- The text that is stored for an address of the form, `none` where the handler returns. -/
def filterAddrOf (behind s : Str) : Option Str :=
  if s = [] then some "any/0".toList else if isIpNetmaskValid behind s then some s else none

/-- The record of a filter: `"%s,%s,%d,%d,%s,%s,%d,%d,%d,%d,%s,%s"`. -/
def filterText (a : FilterArgs) (comment : Str) : Str :=
  [','].intercalate [a.sip, "0".toList, fmtInt a.sprf, fmtInt a.sprt, a.dip, "0".toList,
    fmtInt a.dprf, fmtInt a.dprt, fmtInt a.proto, fmtInt a.action, comment, a.mac]

/-- What `ipportFilter` stores, and the comment of it; `none` where it returns. -/
def ipportFilterArgs (form : IpPortForm) : Option (FilterArgs × Str) := do
  let mac := form.macAddress.getD []
  let sip := form.sipAddress.getD "any".toList
  let sprf := form.sFromPort.getD "0".toList
  let sprt := form.sToPort.getD []
  let dip := form.dipAddress.getD "any".toList
  let dprf := form.dFromPort.getD "0".toList
  let dprt := form.dToPort.getD []
  let comment := form.comment.getD []
  guard (¬ (mac = [] ∧ sip = [] ∧ dip = [] ∧ sprf = [] ∧ dprf = []))
  guard (mac = [] ∨ isMacValid mac)
  let sip ← filterAddrOf form.behindSip sip
  let dip ← filterAddrOf form.behindDip dip
  let proto ← filterProtoOf (form.protocol.getD [])
  let sprf ← filterPortOf proto sprf
  let sprt ← filterPortOf proto sprt
  let dprf ← filterPortOf proto dprf
  let dprt ← filterPortOf proto dprt
  let action ← filterActionOf (form.action.getD [])
  guard (commentOk comment)
  return (⟨mac, sip, sprf, sprt, dip, dprf, dprt, proto.num, action.num⟩, comment)

/-- The record that `ipportFilter` stores, `none` where it returns. -/
def ipportFilterRecord (form : IpPortForm) : Option Str :=
  (ipportFilterArgs form).map fun (a, comment) => filterText a comment

def ipportFilter (form : IpPortForm) (s : FilterBox) : FilterBox :=
  match ipportFilterRecord form with
  | none => s
  | some rec =>
    iptablesIPPortFilterRun gap env
      (iptablesIPPortFilterFlush { s with rules := appendRule s.rules rec })

def ipportFilterDelete (form : DeleteForm) (s : FilterBox) : FilterBox :=
  match deletedRules form s.rules with
  | none => s
  | some rules =>
    iptablesIPPortFilterRun gap env (iptablesIPPortFilterFlush { s with rules })

end RalinkSdk.Firewall
