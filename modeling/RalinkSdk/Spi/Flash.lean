import Mathlib.Data.BitVec

/-!
# The SPI flash driver

The driver talks to the chip in transfers: a command with its address bytes goes out, then data
bytes go out or come in.  After each byte the controller is polled, and where it stays busy the
transfer ends.  What the controller and the chip answer is taken from a sequence of answers, one
for each transfer of an opcode.

A chip of more than 16 MiB has a mode in which it takes four address bytes.  It is switched by
commands of its own: the driver keeps no copy of the mode.

The controller is driven byte by byte (`COMMAND_MODE` is not set).

## Source

`linux-2.6.21.x/drivers/mtd/ralink/ralink_spi.c`.
-/

namespace RalinkSdk.Spi

/-! ## Commands -/

def opcodeWren : BitVec 8 := 6

def opcodeRdsr : BitVec 8 := 5

def opcodeWrdi : BitVec 8 := 4

def opcodeWrsr : BitVec 8 := 1

def opcodeRead : BitVec 8 := 3

def opcodePp : BitVec 8 := 2

def opcodeSe : BitVec 8 := 0xD8

def opcodeBrrd : BitVec 8 := 0x16

def opcodeBrwr : BitVec 8 := 0x17

def opcodeEn4b : BitVec 8 := 0xB7

def opcodeEx4b : BitVec 8 := 0xE9

def srBusy : BitVec 8 := 0x21

/-- `SR_BP0 | SR_BP1 | SR_BP2` -/
def srProtected : BitVec 8 := 0x1C

def flashPagesize : Nat := 256

def eio : Int := 5

def einval : Int := 22

/-! ## State -/

/-- `struct chip_info`.  A chip without `addr4b` is addressed with three bytes. -/
structure ChipInfo where
  id : BitVec 8
  jedecId : BitVec 32
  sectorSize : Nat
  nSectors : Nat
  addr4b : Bool
  sectorSize_pos : 0 < sectorSize
  fits : sectorSize * nSectors ≤ 256 ^ (if addr4b then 4 else 3)

/-- The size of the MTD device. -/
def ChipInfo.size (chip : ChipInfo) : Nat := chip.sectorSize * chip.nSectors

/-- The number of address bytes of a data or erase command. -/
def ChipInfo.addrBytes (chip : ChipInfo) : Nat := if chip.addr4b then 4 else 3

def chip64k (id : BitVec 8) (jedecId : BitVec 32) (nSectors : Nat) (addr4b : Bool)
    (fits : 64 * 1024 * nSectors ≤ 256 ^ (if addr4b then 4 else 3)) : ChipInfo :=
  ⟨id, jedecId, 64 * 1024, nSectors, addr4b, by decide, fits⟩

def chipsData : List ChipInfo := [
  chip64k 0x1f 0x47000000 64 false (by decide),
  chip64k 0x1f 0x46000000 32 false (by decide),
  chip64k 0x01 0x02140000 32 false (by decide),
  chip64k 0x01 0x02160000 128 false (by decide),
  chip64k 0xc2 0x2015c220 32 false (by decide),
  chip64k 0xc2 0x2016c220 64 false (by decide),
  chip64k 0xc2 0x2017c220 128 false (by decide),
  chip64k 0xc2 0x2018c220 256 false (by decide),
  chip64k 0xc2 0x2019c220 512 true (by decide),
  chip64k 0x01 0x02194D01 512 true (by decide),
  chip64k 0x01 0x20180301 256 false (by decide),
  chip64k 0x01 0x20184D01 256 false (by decide),
  chip64k 0x01 0x02154D00 64 false (by decide),
  chip64k 0x01 0x02164D00 128 false (by decide),
  chip64k 0x1c 0x31151c31 32 false (by decide),
  chip64k 0x1c 0x30161c30 64 false (by decide),
  chip64k 0x1c 0x31161c31 64 false (by decide),
  chip64k 0x1c 0x30161c30 64 false (by decide),
  chip64k 0x1c 0x20171c20 128 false (by decide),
  chip64k 0x1c 0x30171c30 128 false (by decide),
  chip64k 0xef 0x40160000 64 false (by decide),
  chip64k 0xef 0x30160000 64 false (by decide),
  chip64k 0xef 0x40170000 128 false (by decide),
  chip64k 0xef 0x40180000 256 false (by decide)]

/-- What a transfer meets: the bytes after which the controller stays busy, the bytes the chip
    sends, and whether the chip carries a mode switch out. -/
structure Answer where
  busy : Nat → Bool
  rx : Nat → BitVec 8
  obeyed : Bool

/-- A transfer that was made: the command with its address, the data bytes to send, the value
    returned, and whether the chip took four address bytes when it began. -/
structure Transfer where
  cmd : List (BitVec 8)
  tx : List (BitVec 8)
  ret : Int
  addr4 : Bool
  deriving DecidableEq

def Transfer.opcode (t : Transfer) : BitVec 8 := t.cmd.headD 0

/-- `struct flash_info` with the address mode of the chip, the answers to the transfers of each
    opcode, and the transfers so far. -/
structure Flash where
  chip : ChipInfo
  locked : Bool
  addr4 : Bool
  answers : BitVec 8 → Nat → Answer
  sent : List Transfer

namespace Flash

variable (f : Flash)

/-- The number of transfers of an opcode so far. -/
def count (opcode : BitVec 8) : Nat := (f.sent.filter (·.opcode = opcode)).length

/-! ## Transfers -/

/-- The bytes out of `n`, from byte `i` of the transfer on, after which the controller becomes
    ready. -/
def shifted (busy : Nat → Bool) (i : Nat) : Nat → Nat
  | 0 => 0
  | n + 1 => if busy i then 0 else shifted busy (i + 1) n + 1

/-- The value that `spic_transfer` returns. -/
def spicResult (a : Answer) (nCmd nBuf : Nat) : Int :=
  if shifted a.busy 0 nCmd < nCmd then -1 else shifted a.busy nCmd nBuf

/-- The address mode after the chip has taken a command: one vendor has a bit for it in the bank
    register, the others have two commands. -/
def switched (id : BitVec 8) (addr4 : Bool) (cmd tx : List (BitVec 8)) : Bool :=
  if id = 0x01 then
    if cmd = [opcodeBrwr] then (tx.headD 0).getLsbD 7 else addr4
  else if cmd = [opcodeEn4b] then true
  else if cmd = [opcodeEx4b] then false
  else addr4

/-- `spic_transfer`: the value returned and the bytes read. -/
def spicTransfer (cmd tx : List (BitVec 8)) (nBuf : Nat) : Flash × Int × List (BitVec 8) :=
  let opcode := cmd.headD 0
  let a := f.answers opcode (f.count opcode)
  let ret := spicResult a cmd.length nBuf
  let addr4 := if ret = nBuf ∧ a.obeyed then switched f.chip.id f.addr4 cmd tx else f.addr4
  ({ f with addr4 := addr4, sent := f.sent ++ [⟨cmd, tx, ret, f.addr4⟩] },
    ret, (List.range ret.toNat).map a.rx)

def spicRead (cmd : List (BitVec 8)) (nRx : Nat) : Flash × Int × List (BitVec 8) :=
  f.spicTransfer cmd [] nRx

def spicWrite (cmd tx : List (BitVec 8)) : Flash × Int :=
  let r := f.spicTransfer cmd tx tx.length
  (r.1, r.2.1)

/-! ## Registers of the chip -/

/-- `raspi_read_sr`: the status register, or an error. -/
def raspiReadSr : Flash × Option (BitVec 8) :=
  let r := f.spicRead [opcodeRdsr] 1
  (r.1, if r.2.1 ≠ 1 then none else r.2.2.head?)

def raspiWriteSr (val : BitVec 8) : Flash := (f.spicWrite [opcodeWrsr] [val]).1

def raspiReadRg (opcode : BitVec 8) : Flash × Option (BitVec 8) :=
  let r := f.spicRead [opcode] 1
  (r.1, r.2.2.head?)

def raspiWriteRg (val opcode : BitVec 8) : Flash := (f.spicWrite [opcode] [val]).1

def raspiWriteEnable : Flash := (f.spicWrite [opcodeWren] []).1

def raspiWriteDisable : Flash := (f.spicWrite [opcodeWrdi] []).1

def raspiUnprotect : Flash :=
  match f.raspiReadSr with
  | (f, none) => f
  | (f, some sr) => if sr &&& srProtected ≠ 0 then f.raspiWriteSr 0 else f

/-- At most `n` reads of the status register, until the chip is ready; `false` is an error. -/
def waitLoop : Nat → Flash → Flash × Bool
  | 0, f => (f, false)
  | n + 1, f =>
    match f.raspiReadSr with
    | (f, none) => (f, false)
    | (f, some sr) => if sr &&& srBusy = 0 then (f, true) else waitLoop n f

/-- `raspi_wait_ready`: whether the chip became ready. -/
def raspiWaitReady (sleepMs : Nat) : Flash × Bool := waitLoop ((sleepMs + 1) * 1000 * 500) f

def raspiWaitSleepReady (sleepMs : Nat) : Flash × Bool := waitLoop ((sleepMs + 1) * 1000) f

/-- `raspi_4byte_mode`: whether the switch is taken to have succeeded, which no caller asks. -/
def raspi4byteMode (enable : Bool) : Flash × Bool :=
  let f := (f.raspiWaitReady 1).1
  if f.chip.id = 0x01 then
    let br : BitVec 8 := if enable then 0x81 else 0
    let f := f.raspiWriteRg br opcodeBrwr
    let r := f.raspiReadRg opcodeBrrd
    (r.1, r.2 = some br)
  else
    let code := if enable then opcodeEn4b else opcodeEx4b
    let r := f.spicRead [code] 0
    (r.1, r.2.1 = 0)

/-! ## Addressed commands -/

/-- The low `n` bytes of an address, most significant first. -/
def addrBytes (addr : Nat) : Nat → List (BitVec 8)
  | 0 => []
  | n + 1 => BitVec.ofNat 8 (addr / 256 ^ n) :: addrBytes addr n

/-- `flash->command`: an opcode and the address, in the width of the chip. -/
def command (opcode : BitVec 8) (addr : Nat) : List (BitVec 8) :=
  opcode :: addrBytes addr f.chip.addrBytes

/-- `down(&flash->lock)`, which does not return where the lock is held. -/
def down : Option Flash := if f.locked then none else some { f with locked := true }

/-- `up(&flash->lock)` -/
def up : Flash := { f with locked := false }

def raspiEraseSector (offset : Nat) : Flash × Int :=
  let ready := f.raspiWaitReady 3
  if ready.2 then
    let f := ready.1.raspiWriteEnable.raspiUnprotect
    if f.chip.addr4b then
      let f := (f.raspi4byteMode true).1.raspiWriteEnable
      let f := (f.spicWrite (f.command opcodeSe offset) []).1
      let f := (f.raspiWaitSleepReady 950).1
      ((f.raspi4byteMode false).1, 0)
    else
      let f := (f.spicWrite (f.command opcodeSe offset) []).1
      let f := (f.raspiWaitSleepReady 950).1
      (f.raspiWriteDisable, 0)
  else (ready.1, -eio)

/-- The loop of `ramtd_erase` over `n` sectors. -/
def eraseLoop : Nat → Flash → Nat → Flash × Int
  | 0, f, _ => (f, 0)
  | n + 1, f, addr =>
    let r := f.raspiEraseSector addr
    if r.2 ≠ 0 then (r.1, -eio) else eraseLoop n r.1 (addr + r.1.chip.sectorSize)

/-- `ramtd_erase`; `none` where the lock is never got. -/
def ramtdErase (addr len : Nat) : Option (Flash × Int) :=
  if f.chip.size < addr + len then some (f, -einval)
  else if addr % f.chip.sectorSize ≠ 0 ∨ len % f.chip.sectorSize ≠ 0 then some (f, -einval)
  else f.down.map fun f =>
    let r := eraseLoop (len / f.chip.sectorSize) f addr
    (r.1.up, r.2)

def readLocked (start len : Nat) : Flash × Int × Option Int × List (BitVec 8) :=
  let ready := f.raspiWaitReady 1
  if ready.2 then
    let f := if ready.1.chip.addr4b then (ready.1.raspi4byteMode true).1 else ready.1
    let r := f.spicRead (f.command opcodeRead start) len
    let f := if f.chip.addr4b then (r.1.raspi4byteMode false).1 else r.1
    (f.up, if r.2.1 ≠ len then -eio else 0, some r.2.1, r.2.2)
  else (ready.1.up, -eio, some 0, [])

/-- `ramtd_read`: the value returned, `*retlen` where it is set, and the bytes read. -/
def ramtdRead (start len : Nat) : Option (Flash × Int × Option Int × List (BitVec 8)) :=
  if len = 0 then some (f, 0, none, [])
  else if f.chip.size < start + len then some (f, -einval, none, [])
  else f.down.map (readLocked · start len)

/-- The state of the loop of `ramtd_write` after it: whether it went through, and `*retlen`. -/
structure Written where
  flash : Flash
  through : Bool
  retlen : Nat

/-- The loop of `ramtd_write`, with `room` bytes left in the page of `start` and `count` pages
    written.  Each round takes at least one byte, so that `fuel` for the bytes is enough. -/
def writeLoop : Nat → Flash → Nat → Nat → List (BitVec 8) → Nat → Nat → Written
  | 0, f, _, _, _, _, retlen => ⟨f, true, retlen⟩
  | fuel + 1, f, start, room, buf, count, retlen =>
    if buf = [] then ⟨f, true, retlen⟩
    else
      let pageSize := min buf.length room
      let f := (f.raspiWaitReady 3).1.raspiWriteEnable.raspiUnprotect
      let r := f.spicWrite (f.command opcodePp start) (buf.take pageSize)
      let retlen := if 0 < r.2 then retlen + r.2.toNat else retlen
      if 0 < r.2 ∧ r.2 < pageSize then ⟨r.1.up.raspiWriteDisable, false, retlen⟩
      else
        -- a result that is zero or negative comes this way too
        let f := if (count + 1) % 16 = 0 then (r.1.raspiWaitSleepReady 1).1 else r.1
        writeLoop fuel f (start + pageSize) flashPagesize (buf.drop pageSize) (count + 1) retlen

def writeLocked (start : Nat) (buf : List (BitVec 8)) : Flash × Int × Nat :=
  let ready := f.raspiWaitReady 2
  if ready.2 then
    let f := ready.1.raspiWriteEnable
    let f := if f.chip.addr4b then (f.raspi4byteMode true).1 else f
    let w := writeLoop buf.length f start (flashPagesize - start % flashPagesize) buf 0 0
    if w.through then
      let f := if w.flash.chip.addr4b then (w.flash.raspi4byteMode false).1 else w.flash
      (f.raspiWriteDisable.up, 0, w.retlen)
    else (w.flash, -eio, w.retlen)
  else (ready.1.up, -1, 0)

/-- `ramtd_write`: the value returned and `*retlen`. -/
def ramtdWrite (start : Nat) (buf : List (BitVec 8)) : Option (Flash × Int × Nat) :=
  if buf = [] then some (f, 0, 0)
  else if f.chip.size < start + buf.length then some (f, -einval, 0)
  else f.down.map (writeLocked · start buf)

end Flash

end RalinkSdk.Spi
