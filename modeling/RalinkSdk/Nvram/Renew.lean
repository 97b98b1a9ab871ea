import RalinkSdk.Nvram.Coherence

/-!
# Importing a settings file

`renew_nvram` reads a file line by line with `fgets`, skips blank lines and comments, and sets what
the other lines say.  The first line that is neither blank nor a comment has to be `Default`.
Afterwards it sets the MAC address of the WAN port and, if there is a file `/tmp/wlancryptfile`, a
key, and commits.

## Conventions

- The library is the one built with `CONFIG_KERNEL_NVRAM`; the device opens and allocations
  succeed.
- What comes from other files and from the flash is a parameter: the first line of
  `/tmp/wlancryptfile`, the MAC addresses.
- `new_ssid` has 30 bytes; a longer text is written behind it, and nothing is said of what follows.

## Source

`user/rt2880_app/nvram/ralink_init.c`, `lib/libnvram/nvram_env.c`.
-/

namespace RalinkSdk.Nvram

open Function

open Lib

/-! ## Text -/

/-- The bytes of a text of the source. -/
def ascii (s : String) : List UInt8 := s.toList.map fun c => UInt8.ofNat c.toNat

/-- The line end, and the first character of a comment. -/
def newlineByte : UInt8 := 10

def hashByte : UInt8 := 35

def bufsz : Nat := 1024

/-- The bytes that `fgets` takes, at most `n` of them: up to the end of the line. -/
def takeLine : Nat → List UInt8 → List UInt8
  | 0, _ => []
  | _ + 1, [] => []
  | n + 1, b :: bs => if b = newlineByte then [b] else b :: takeLine n bs

/-- `fgets(buf, size, fp)`: the bytes read and the rest of the file; `none` at its end. -/
def fgets (size : Nat) : List UInt8 → Option (List UInt8 × List UInt8)
  | [] => none
  | b :: bs =>
    let line := takeLine (size - 1) (b :: bs)
    some (line, (b :: bs).drop line.length)

/-- `buf[0] == '\n' || buf[0] == '#'` -/
def skipped (buf : List UInt8) : Bool :=
  buf.head? = some newlineByte || buf.head? = some hashByte

def ssid1Name : CStr := CStr.read (ascii "SSID1")

def wanMacAddrName : CStr := CStr.read (ascii "WAN_MAC_ADDR")

def wlancryptName : CStr := CStr.read (ascii "wlancryptluotao")

/-- The name and the value of a line: `strchr(buf, '=')`, and the last byte of `buf` is cut off. -/
def splitLine (buf : List UInt8) : Option (CStr × CStr) :=
  match strchr 0x3d (buf ++ [0]) with
  | .found name _ =>
    some (CStr.read name, CStr.read ((CStr.read buf).bytes.dropLast.drop (name.length + 1)))
  | _ => none

/-! ## The process -/

/-- The process of the command `nvram`: the driver, and the blocks of the library. -/
structure NvProc where
  kernel : Kernel
  lib : Int → LBlock

def NvProc.init (s : NvProc) (index : Int) : NvProc :=
  let r := libNvramInit LibEnv.good s.kernel (s.lib index) index
  ⟨r.2, update s.lib index r.1⟩

/-- `nvram_bufset(index, name, value)` -/
def NvProc.bufset (s : NvProc) (index : Int) (name value : CStr) : NvProc :=
  let o := libNvramBufset LibEnv.good s.kernel (s.lib index) index name value
  ⟨o.kernel, update s.lib index o.block⟩

def NvProc.commit (s : NvProc) (index : Int) : NvProc :=
  let o := libNvramCommit LibEnv.good s.kernel (s.lib index) index
  ⟨o.kernel, update s.lib index o.block⟩

def NvProc.close (s : NvProc) (index : Int) : NvProc :=
  if (s.lib index).valid then
    let s := if (s.lib index).dirty then s.commit index else s
    { s with lib := update s.lib index { s.lib index with cache := [], valid := false } }
  else s

/-- What `renew_nvram` takes from elsewhere: the line in `nvbuf`, empty if there is no file; the
    last two bytes of the WLAN address, if it was read; the text of the WAN address. -/
structure RenewEnv where
  nvbuf : CStr
  macTail : Option (UInt8 × UInt8)
  wanMac : CStr

/-! ## The loops -/

/-- `"%02X"` -/
def hexByte (b : UInt8) : List UInt8 :=
  let digit (n : Nat) : UInt8 := UInt8.ofNat (if n < 10 then 48 + n else 55 + n)
  [digit (b.toNat / 16), digit (b.toNat % 16)]

def RenewEnv.mac6 (env : RenewEnv) : List UInt8 :=
  match env.macTail with
  | some (b4, b5) => 32 :: (hexByte b4 ++ hexByte b5)
  | none => []

/-- The text in `new_ssid`; `none` if it does not fit. -/
def RenewEnv.newSsid (env : RenewEnv) (value : CStr) : Option CStr :=
  if value.strlen + env.mac6.length < 30 then some (CStr.read (value.bytes ++ env.mac6)) else none

def NvProc.setLine (env : RenewEnv) (mode : Int) (s : NvProc) (line : CStr × CStr) :
    Option NvProc :=
  if line.1 = ssid1Name then (env.newSsid line.2).map fun value => s.bufset mode line.1 value
  else some (s.bufset mode line.1 line.2)

/-- The first loop: what follows the line `Default`. -/
def findDefault : Nat → List UInt8 → Option (List UInt8)
  | 0, _ => none
  | fuel + 1, file =>
    match fgets bufsz file with
    | none => none
    | some (buf, rest) =>
      if skipped buf then findDefault fuel rest
      else if buf.take 8 = ascii "Default\n" then some rest
      else findDefault fuel rest

/-- How the second loop ends: at the end of the file, at a line without `'='`, or with a write
    behind `new_ssid`. -/
inductive RenewLoop where
  | eof (s : NvProc)
  | badLine (s : NvProc)
  | fault

/-- The second loop; every turn reads a byte at least, so `fuel` is the length of the file. -/
def renewLoop (env : RenewEnv) (mode : Int) : Nat → List UInt8 → Bool → NvProc → RenewLoop
  | 0, _, _, s => .eof s
  | fuel + 1, file, needCommit, s =>
    match fgets bufsz file with
    | none => .eof s
    | some (buf, rest) =>
      if skipped buf then renewLoop env mode fuel rest needCommit s
      else
        match splitLine buf with
        | none => .badLine (if needCommit then s.commit mode else s)
        | some line =>
          match s.setLine env mode line with
          | none => .fault
          | some s => renewLoop env mode fuel rest true s

def rt2860Nvram (dualImage : Bool) : Int := if dualImage then 1 else 0

def NvProc.setExtras (env : RenewEnv) (s : NvProc) : NvProc :=
  let s := s.bufset (rt2860Nvram s.kernel.dualImage) wanMacAddrName env.wanMac
  if env.nvbuf.bytes = [] then s
  else s.bufset (rt2860Nvram s.kernel.dualImage) wlancryptName env.nvbuf

/-- `renew_nvram(mode, fname)`: the result and the process; `none` after a write behind
    `new_ssid`. -/
def renewNvram (env : RenewEnv) (mode : Int) (file : List UInt8) (s : NvProc) :
    Option (Int × NvProc) :=
  match findDefault file.length file with
  | none => some (-1, s)
  | some rest =>
    match renewLoop env mode rest.length rest false (s.init mode) with
    | .fault => none
    | .badLine s => some (-1, s)
    | .eof s => some (0, ((s.setExtras env).commit mode).close mode)

end RalinkSdk.Nvram
