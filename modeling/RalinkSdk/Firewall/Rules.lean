import Mathlib
import RalinkSdk.Lib.Run

/-!
# Firewall settings of the web server: stored lists and the rules made of them

`user/goahead/src_tongyong/firewall.c` keeps its settings as texts in nvram, a list being a
`;`-separated text of `,`-separated records, and turns them into `iptables` commands.

## Conventions

- A text is the list of its characters, without the closing NUL.
- `nvram_bufget` of `lib/libnvram` never returns `NULL`: a name without a value reads as the
  empty text.  The `NULL` checks of the source never fire.
- A chain is the list of the append commands that `iptables` accepted.  Which commands those are,
  the name of the WAN interface and its address belong to the environment.
- Modelled are the two chains `port_forward` (table `nat`) and `web_filter` (table `filter`).
-/

namespace RalinkSdk.Firewall

open Lib List Function Option

/-- A C string without its NUL. -/
abbrev Str := List Char

/-! ## C library -/

def isspace (c : Char) : Bool :=
  c = ' ' || (9 ≤ c.toNat && c.toNat ≤ 13)

/-- The value of a text of decimal digits. -/
def decimal (digits : Str) : Nat :=
  digits.foldl (fun n c => n * 10 + (c.toNat - '0'.toNat)) 0

/-- The sign in front of a number. -/
def sign : Str → Bool × Str
  | '-' :: s => (true, s)
  | '+' :: s => (false, s)
  | s => (false, s)

/-- `atoi`, saturating as `strtol` with a 32-bit `long` does. -/
def atoi (s : Str) : Int :=
  let (neg, s) := sign (s.dropWhile isspace)
  let n := decimal (s.takeWhile Char.isDigit)
  if neg then max (-2 ^ 31) (-n) else min (2 ^ 31 - 1) n

/-- `%d` -/
def fmtInt (n : Int) : Str := (toString n).toList

/-- One part of a dotted address, at most 255; the rest of the text after it. -/
def addrPart (s : Str) : Option Str :=
  let digits := s.takeWhile Char.isDigit
  if digits = [] ∨ 255 < decimal digits then none else some (s.dropWhile Char.isDigit)

/-- The `.` between two parts. -/
def addrDot : Str → Option Str
  | '.' :: s => some s
  | _ => none

/-- `inet_aton`: four decimal parts, then the end of the text or white space. -/
def inetAton (s : Str) : Bool :=
  let rest := do
    let s ← addrPart s
    let s ← addrDot s
    let s ← addrPart s
    let s ← addrDot s
    let s ← addrPart s
    let s ← addrDot s
    addrPart s
  match rest with
  | none => false
  | some [] => true
  | some (c :: _) => isspace c

/-! ## Lists in a text -/

/-- The walk of `getNthValueSafe` from delimiter to delimiter. -/
def nthValue (delimit : Char) : Nat → Str → Option Str
  | 0, s => some (s.takeWhile (· ≠ delimit))
  | n + 1, s =>
    match s.dropWhile (· ≠ delimit) with
    | [] => none
    | _ :: rest => nthValue delimit n rest

/-- `getNthValueSafe(index, value, delimit, result, len)`; `none` is -1. -/
def getNthValueSafe (index : Nat) (value : Str) (delimit : Char) (len : Nat) : Option Str :=
  (nthValue delimit index value).map (·.take (len - 1))

/-- `getNums(value, delimit)` -/
def getNums (value : Str) (delimit : Char) : Nat := value.count delimit + 1

def getRuleNums (rules : Str) : Nat := getNums rules ';'

theorem nthValue_eq_none {delimit : Char} {n : Nat} {s : Str} :
    nthValue delimit n s = none ↔ getNums s delimit ≤ n := by
  induction n generalizing s with
  | zero => simp [nthValue, getNums]
  | succ n ih =>
    have hsplit := takeWhile_append_dropWhile (p := (· ≠ delimit)) (l := s)
    have hfront : (s.takeWhile (· ≠ delimit)).count delimit = 0 := by
      apply count_eq_zero_of_not_mem
      intro hmem
      simpa using mem_takeWhile_imp hmem
    have hcount : s.count delimit = (s.dropWhile (· ≠ delimit)).count delimit := by
      conv_lhs => rw [← hsplit]
      rw [count_append, hfront, Nat.zero_add]
    rw [getNums, hcount, nthValue]
    cases hdrop : s.dropWhile (· ≠ delimit) with
    | nil => simp
    | cons c rest =>
      have hc : c = delimit := by
        have hhead := head?_dropWhile_not (p := (· ≠ delimit)) (l := s)
        rw [hdrop] at hhead
        simpa using hhead
      rw [hc, count_cons_self]
      simp only [ih, getNums]
      omega

/-- The loop `while (getNthValueSafe(i++, value, ';', rec, len) != -1)` sees these texts. -/
def records (value : Str) (len : Nat) : List Str :=
  (range (getRuleNums value)).filterMap fun i => getNthValueSafe i value ';' len

theorem getNthValueSafe_isSome {i : Nat} {value : Str} {len : Nat} :
    (getNthValueSafe i value ';' len).isSome ↔ i < getRuleNums value := by
  rw [getNthValueSafe, isSome_map, ← not_iff_not, Bool.not_eq_true,
    isSome_eq_false_iff, isNone_iff_eq_none, nthValue_eq_none, getRuleNums]
  omega

/-- The values of a text, each behind the first with its delimiter in front. -/
def segments (delimit : Char) : Str → List Str
  | [] => [[]]
  | c :: s =>
    match segments delimit s with
    | [] => [[c]]
    | seg :: segs => if c = delimit then [] :: (c :: seg) :: segs else (c :: seg) :: segs

/-- The walk of `deleteNthValueMulti`: the segment numbers that `index` names one after the other
    are wiped.  When `index` is used up the rest of the text stays. -/
def wipe (i : Nat) : List Int → List Str → List Str
  | [], segs => segs
  | _ :: _, [] => []
  | k :: index, seg :: segs =>
    if (i : Int) = k then [] :: wipe (i + 1) index segs else seg :: wipe (i + 1) (k :: index) segs

/-- `deleteNthValueMulti(index, count, value, delimit)` with `count` the length of `index`.  When
    the first of several values went, a `;` that now comes first goes too. -/
def deleteNthValueMulti (index : List Int) (value : Str) (delimit : Char) : Str :=
  let segs := segments delimit value
  let buf := (wipe 0 index segs).flatten
  if index.head? = some 0 ∧ 1 < segs.length then
    match buf with
    | ';' :: rest => rest
    | _ => buf
  else buf

/-! ## State -/

/-- The nvram names that the modelled functions use. -/
inductive Key where
  | portForwardEnable
  | portForwardRules
  | singlePortForwardEnable
  | singlePortForwardRules
  | websURLFilterEnabled
  | websURLFilters
  | websHostFilters
  | websFilterProxy
  | websFilterJava
  | websFilterActivex
  | websFilterCookies
deriving DecidableEq, Repr

/-- What `nvram_bufget` returns for each name. -/
abbrev Nvram := Key → Str

def nvramSet (nv : Nvram) (key : Key) (value : Str) : Nvram := update nv key value

inductive Chain where
  /-- `PORT_FORWARD_CHAIN` -/
  | portForward
  /-- `WEB_FILTER_CHAIN` -/
  | webFilter
deriving DecidableEq, Repr

structure Box where
  nvram : Nvram
  chains : Chain → List Str

structure Env where
  /-- `getWanIfNamePPP()` -/
  wanName : Str
  /-- what `getIfIp(getWanIfNamePPP(), ..)` finds, `none` for -1 -/
  wanIp : Option Str
  /-- `iptables` carries the append command out -/
  iptables : Str → Bool

/-- `iptables -F` on a chain. -/
def flush (chain : Chain) (s : Box) : Box :=
  { s with chains := update s.chains chain [] }

/-- `doSystem` of a command that appends to a chain. -/
def doSystem (env : Env) (chain : Chain) (s : Box) (cmd : Str) : Box :=
  if env.iptables cmd then
    { s with chains := update s.chains chain (s.chains chain ++ [cmd]) }
  else s

/-- The commands of a list, one after the other. -/
def doSystems (env : Env) (chain : Chain) (s : Box) (cmds : List Str) : Box :=
  cmds.foldl (doSystem env chain) s

/-- **Running commands** appends those that `iptables` accepts, and nothing else happens. -/
theorem doSystems_eq (env : Env) (chain : Chain) (s : Box) (cmds : List Str) :
    doSystems env chain s cmds =
      { s with chains := update s.chains chain (s.chains chain ++ cmds.filter env.iptables) } := by
  induction cmds generalizing s with
  | nil => simp [doSystems]
  | cons cmd cmds ih =>
    simp only [doSystems] at ih
    rw [doSystems, foldl_cons, ih, filter_cons]
    by_cases h : env.iptables cmd
    · simp [doSystem, h]
    · simp [doSystem, h]

/-! ## Port forwarding -/

/-- `PROTO_TCP`, `PROTO_UDP`, `PROTO_TCP_UDP` -/
inductive Proto where
  | tcp
  | udp
  | tcpUdp
deriving DecidableEq, Repr

def Proto.num : Proto → Int
  | .tcp => 1
  | .udp => 2
  | .tcpUdp => 3

/-- The `switch(proto)` of the run functions. -/
def Proto.ofNum (n : Int) : Option Proto :=
  if n = 1 then some .tcp else if n = 2 then some .udp else if n = 3 then some .tcpUdp else none

def Proto.option : Proto → Str
  | .tcp => "-p tcp ".toList
  | .udp => "-p udp ".toList
  | .tcpUdp => " ".toList

def Proto.rules : Proto → List Proto
  | .tcp => [.tcp]
  | .udp => [.udp]
  | .tcpUdp => [.tcp, .udp]

def isIpValid (s : Str) : Bool :=
  s = "any".toList || s = "any/0".toList || inetAton s

def makePortForwardRule (wanIp ipAddress : Str) (proto : Proto) (prf prt : Int) : Str :=
  "iptables -t nat -A port_forward -j DNAT -d ".toList ++ wanIp ++ " ".toList ++ proto.option ++
    (if prt ≠ 0 then "--dport ".toList ++ fmtInt prf ++ ":".toList ++ fmtInt prt ++ " ".toList
      else "--dport ".toList ++ fmtInt prf ++ " ".toList) ++
    "--to ".toList ++ ipAddress ++ " ".toList

def makeSinglePortForwardRule (wanName ipAddress : Str) (proto : Proto)
    (publicPort privatePort : Int) : Str :=
  "iptables -t nat -A port_forward -j DNAT -i ".toList ++ wanName ++ " ".toList ++ proto.option ++
    "--dport ".toList ++ fmtInt publicPort ++ " ".toList ++
    "--to-destination ".toList ++ ipAddress ++ ":".toList ++ fmtInt privatePort

/-- The commands of one record of `PortForwardRules`, in the loop of `iptablesPortForwardRun`. -/
def portForwardCmds (wanIp : Str) (rec : Str) : List Str :=
  let cmds := do
    let ipAddress ← getNthValueSafe 0 rec ',' 32
    guard (isIpValid ipAddress)
    let prf := atoi (← getNthValueSafe 1 rec ',' 8)
    guard (prf ≠ 0 ∧ prf ≤ 65535)
    let prt := atoi (← getNthValueSafe 2 rec ',' 8)
    guard (prt ≤ 65535)
    let proto ← Proto.ofNum (atoi (← getNthValueSafe 3 rec ',' 8))
    return proto.rules.map fun p => makePortForwardRule wanIp ipAddress p prf prt
  cmds.getD []

/-- The commands of one record of `SinglePortForwardRules`, in the loop of
    `iptablesSinglePortForwardRun`. -/
def singlePortForwardCmds (wanName : Str) (rec : Str) : List Str :=
  let cmds := do
    let ipAddress ← getNthValueSafe 0 rec ',' 32
    guard (isIpValid ipAddress)
    let publicPort := atoi (← getNthValueSafe 1 rec ',' 8)
    guard (publicPort ≠ 0 ∧ publicPort ≤ 65535)
    let privatePort := atoi (← getNthValueSafe 2 rec ',' 8)
    guard (privatePort ≠ 0 ∧ privatePort ≤ 65535)
    let proto ← Proto.ofNum (atoi (← getNthValueSafe 3 rec ',' 8))
    return proto.rules.map fun p =>
      makeSinglePortForwardRule wanName ipAddress p publicPort privatePort
  cmds.getD []

def iptablesPortForwardRun (env : Env) (s : Box) : Box :=
  if atoi (s.nvram .portForwardEnable) = 0 then s
  else
    match env.wanIp with
    | none => s
    | some wanIp =>
      (records (s.nvram .portForwardRules) 256).foldl
        (fun s rec => doSystems env .portForward s (portForwardCmds wanIp rec)) s

def iptablesSinglePortForwardRun (env : Env) (s : Box) : Box :=
  if atoi (s.nvram .singlePortForwardEnable) = 0 then s
  else
    (records (s.nvram .singlePortForwardRules) 256).foldl
      (fun s rec => doSystems env .portForward s (singlePortForwardCmds env.wanName rec)) s

/-! ## Web filters -/

/-- The sum of `BLK_JAVA`, `BLK_ACTIVE`, `BLK_COOKIE` and `BLK_PROXY` that is to be blocked. -/
def contentFilter (nv : Nvram) : Nat :=
  (if nv .websFilterJava = "1".toList then 1 else 0) +
  (if nv .websFilterActivex = "1".toList then 2 else 0) +
  (if nv .websFilterCookies = "1".toList then 4 else 0) +
  (if nv .websFilterProxy = "1".toList then 8 else 0)

/-- The command that blocks contents on one port. -/
def contentCmd (port : String) (content : Nat) : Str :=
  "iptables -A web_filter -p tcp -m tcp --dport ".toList ++ port.toList ++
    " -m webstr --content ".toList ++ fmtInt content ++
    " -j REJECT --reject-with tcp-reset".toList

def contentCmds (nv : Nvram) : List Str :=
  if contentFilter nv = 0 then []
  else ["80  ", "3128", "8080"].map fun port => contentCmd port (contentFilter nv)

/-- `strcpy(entry, entry + strlen("http://"))` where the entry starts so. -/
def stripHttp (entry : Str) : Str :=
  if (entry.take 7).map Char.toLower = "http://".toList then entry.drop 7 else entry

def urlCmd (entry : Str) : Str :=
  "iptables -A web_filter -p tcp -m tcp -m webstr --url  ".toList ++ stripHttp entry ++
    " -j REJECT --reject-with tcp-reset".toList

def hostCmd (entry : Str) : Str :=
  "iptables -A web_filter -p tcp -m tcp -m webstr --host ".toList ++ entry ++
    " -j REJECT --reject-with tcp-reset".toList

/-- The entries of a list of filters; an empty one makes no rule. -/
def filterEntries (value : Str) : List Str := (records value 256).filter (· ≠ [])

/-- `iptablesWebsFilterRun`: contents, then URLs, then hosts. -/
def iptablesWebsFilterRun (env : Env) (s : Box) : Box :=
  let s := doSystems env .webFilter s (contentCmds s.nvram)
  let s := doSystems env .webFilter s ((filterEntries (s.nvram .websURLFilters)).map urlCmd)
  doSystems env .webFilter s ((filterEntries (s.nvram .websHostFilters)).map hostCmd)

/-! ## Boot -/

/-- `firewall_init` on the two chains: clear them and install everything. -/
def firewallInit (env : Env) (s : Box) : Box :=
  let s := iptablesWebsFilterRun env (flush .webFilter s)
  iptablesSinglePortForwardRun env (iptablesPortForwardRun env (flush .portForward s))

end RalinkSdk.Firewall
