import RalinkSdk.Nvram.Basic

/-!
# Writing a flash partition from user space

`flash_write` and `flash_write_ralink_eeprom` open the character device of a partition and write
a buffer to it, sector by sector.  A piece that is not a whole number of sectors is written
together with the rest of its sector, which is read before.  Whole sectors are erased and written
without a seek: they go where the file pointer is, and that is 0 in a file just opened.

## Conventions

- An erase of a block that does not begin at a multiple of the erase size is refused by all
  drivers of this kernel.  Every other operation on the device succeeds, and so does `malloc`.
- What writing a byte to a flash cell does is left open, but for a cell that is erased.
- A partition ends at a multiple of the erase size, else it is not writable.

## Source

`lib/libnvram/flash_api.c`, `drivers/mtd/mtdchar.c`, `drivers/mtd/mtdpart.c`.
-/

namespace RalinkSdk.Nvram

open Lib

/-! ## The device -/

/-- `struct mtd_info_user`; the erase size is `1 << eraseShift`. -/
structure MtdInfo where
  size : Nat
  eraseShift : Nat
  whole : 2 ^ eraseShift ∣ size

def MtdInfo.erasesize (info : MtdInfo) : Nat := 2 ^ info.eraseShift

/-- What becomes of a cell when a byte is written to it. -/
structure Cell where
  program : UInt8 → UInt8 → UInt8
  program_erased : ∀ b, program 0xFF b = b

/-- An open file of the character device. -/
structure Fd where
  content : Flash
  pos : Nat

/-- Bytes written at `start`, cell by cell. -/
def Flash.program (cell : Cell) (flash : Flash) (start : Nat) (buf : List UInt8) : Flash := fun a =>
  if start ≤ a ∧ a < start + buf.length then cell.program (flash a) (buf.getD (a - start) 0)
  else flash a

/-- `lseek(fd, offset, SEEK_SET)` -/
def Fd.lseek (fd : Fd) (offset : Nat) : Fd := { fd with pos := offset }

/-- `read(fd, buf, count)`: up to the end of the device. -/
def Fd.read (info : MtdInfo) (fd : Fd) (count : Nat) : List UInt8 × Fd :=
  let count := min count (info.size - fd.pos)
  (raMtdReadNm fd.content fd.pos count, { fd with pos := fd.pos + count })

/-- `write(fd, buf, count)`: up to the end of the device; nothing can be written there. -/
def Fd.write (cell : Cell) (info : MtdInfo) (fd : Fd) (buf : List UInt8) : Option (Nat × Fd) :=
  if fd.pos = info.size then none
  else
    let buf := buf.take (info.size - fd.pos)
    some (buf.length, ⟨fd.content.program cell fd.pos buf, fd.pos + buf.length⟩)

/-- `ioctl(fd, MEMERASE, {start, length})` -/
def Fd.memErase (info : MtdInfo) (fd : Fd) (start length : Nat) : Option Fd :=
  if info.size ≤ start ∨ start % info.erasesize ≠ 0 ∨ length % info.erasesize ≠ 0 then none
  else some { fd with content := fd.content.store start (List.replicate length 0xFF) }

/-! ## The loop -/

/-- The variables of the loop; `dest` is the variable `to`, and `len` the length of `buf`. -/
structure WriteLoop where
  fd : Fd
  dest : Nat
  buf : List UInt8
  ret : Int

/-- The body of the loop; an error is the device at the `return -1`. -/
def writeLoopBody (cell : Cell) (info : MtdInfo) (s : WriteLoop) : Except Fd WriteLoop :=
  let len := s.buf.length
  if len &&& (info.erasesize - 1) ≠ 0 ∨ len < info.erasesize then
    let piece := s.dest &&& (info.erasesize - 1)
    let bakaddr := s.dest - piece
    let (bak, fd) := (s.fd.lseek bakaddr).read info info.erasesize
    let pieceSize := min len (info.erasesize - piece)
    let bak := memWrite bak piece (s.buf.take pieceSize)
    match fd.memErase info bakaddr info.erasesize with
    | none => .error fd
    | some fd =>
      match (fd.lseek bakaddr).write cell info bak with
      | none => .error fd
      | some (ret, fd) => .ok ⟨fd, s.dest + pieceSize, s.buf.drop pieceSize, ret⟩
  else
    match s.fd.memErase info s.dest info.erasesize with
    | none => .error s.fd
    | some fd =>
      match fd.write cell info (s.buf.take info.erasesize) with
      | none => .error fd
      | some (ret, fd) =>
        .ok ⟨fd, s.dest + info.erasesize, s.buf.drop info.erasesize, ret⟩

/-- `while (len > 0)`; every turn takes a byte at least, so `fuel` is the length. -/
def writeLoop (cell : Cell) (info : MtdInfo) : Nat → WriteLoop → Int × Flash
  | 0, s => (s.ret, s.fd.content)
  | fuel + 1, s =>
    if s.buf = [] then (s.ret, s.fd.content)
    else
      match writeLoopBody cell info s with
      | .error fd => (-1, fd.content)
      | .ok s => writeLoop cell info fuel s

/-- The common text of the two functions, on the partition that they open. -/
def flashWriteMtd (cell : Cell) (info : MtdInfo) (content : Flash) (buf : List UInt8) (dest : Nat) :
    Int × Flash :=
  if info.size < buf.length then (-1, content)
  else writeLoop cell info buf.length ⟨⟨content, 0⟩, dest, buf, 0⟩

/-- The partitions that are opened by name. -/
inductive MtdName where
  | config
  | factory
deriving DecidableEq

/-- The partitions with their content. -/
structure Mtds where
  cell : Cell
  info : MtdName → MtdInfo
  content : MtdName → Flash

/-- The partitions after a write to one of them. -/
def Mtds.flashWriteNamed (m : Mtds) (name : MtdName) (buf : List UInt8) (dest : Nat) : Int × Mtds :=
  let r := flashWriteMtd m.cell (m.info name) (m.content name) buf dest
  (r.1, { m with content := Function.update m.content name r.2 })

def Mtds.flashWrite (m : Mtds) (buf : List UInt8) (dest : Nat) : Int × Mtds :=
  m.flashWriteNamed .config buf dest

def Mtds.flashWriteRalinkEeprom (m : Mtds) (buf : List UInt8) (dest : Nat) : Int × Mtds :=
  m.flashWriteNamed .factory buf dest

end RalinkSdk.Nvram
