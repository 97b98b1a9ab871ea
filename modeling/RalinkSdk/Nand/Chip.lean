import RalinkSdk.Lib.Memory
import RalinkSdk.Lib.Run

/-!
# The NAND driver

The chip is an array of pages, each with its data bytes followed by its spare (OOB) bytes.
Programming a page clears bits and erasing a block sets them.  Every access of the controller
may fail; what it then reads or programs, the ECC registers and the write protection are
taken from a sequence of answers of the hardware.  A failed `BUG_ON` ends the call.

The driver keeps two bits for each block in `bbt`.  `bbt` and `buffers` are arrays without an
end: a store behind the real ones is not followed.

## Source

`linux-2.6.21.x/drivers/mtd/ralink/ralink_nand.c`, `ralink_nand.h`.
-/

namespace RalinkSdk.Nand

open Function List

open Lib

/-! ## Geometry -/

/-- The chips the driver is set up for: the page size and the number of address cycles. -/
inductive ChipMode where
  | page512Addr3
  | page512Addr4
  | page2048Addr4
  | page2048Addr5
  deriving DecidableEq

namespace ChipMode

def isNandPage2048 : ChipMode → Bool
  | page512Addr3 | page512Addr4 => false
  | page2048Addr4 | page2048Addr5 => true

/-- `CONFIG_CHIP_SIZE_BIT` -/
def chipShift : ChipMode → Nat
  | page512Addr3 => 25
  | page512Addr4 => 30
  | page2048Addr4 => 27
  | page2048Addr5 => 30

variable (m : ChipMode)

/-- `CONFIG_PAGE_SIZE_BIT` -/
def pageShift : Nat := if m.isNandPage2048 then 11 else 9

/-- `CONFIG_NUMPAGE_PER_BLOCK_BIT` -/
def blockPagesShift : Nat := if m.isNandPage2048 then 6 else 5

def eraseShift : Nat := m.pageShift + m.blockPagesShift

/-- `CONFIG_OOBSIZE_PER_PAGE_BIT` -/
def oobShift : Nat := if m.isNandPage2048 then 6 else 4

/-- `CONFIG_BAD_BLOCK_POS` -/
def badblockpos : Nat := if m.isNandPage2048 then 5 else 4

def eccOffset : Nat := if m.isNandPage2048 then 6 else 5

def pagesize : Nat := 2 ^ m.pageShift

/-- `CFG_PAGE_OOBSIZE` -/
def oobsize : Nat := 2 ^ m.oobShift

/-- The number of pages of a block. -/
def pagesPerblock : Nat := 2 ^ m.blockPagesShift

/-- `CFG_CHIPSIZE`, which is also the size of the MTD device. -/
def chipsize : Nat := 2 ^ m.chipShift

def numpage : Nat := 2 ^ (m.chipShift - m.pageShift)

def pageOf (offs : Nat) : Nat := offs % m.chipsize / m.pagesize

def blockOf (offs : Nat) : Nat := offs % m.chipsize / 2 ^ m.eraseShift

/-- The column of the bad-block byte of a page. -/
def badblockCol : Nat := m.pagesize + m.badblockpos

def eccWords : Nat := if m.isNandPage2048 then 4 else 1

/-- The ECC bytes in the spare bytes of a page: the word they belong to and their place in it. -/
def eccPlaces : List (Nat × Nat) :=
  (range m.eccWords).flatMap fun w => (range 3).map fun i => (w, i)

/-- The column of an ECC byte: the words stand a quarter of the spare bytes apart. -/
def eccCol (place : Nat × Nat) : Nat :=
  m.pagesize + m.eccOffset + place.1 * (m.oobsize / 4) + place.2

end ChipMode

/-! ## State -/

/-- What the controller answers to one access: whether it fails, what is transferred where it
    does, the ECC registers and the write protection of the status. -/
structure NfcAnswer where
  fail : Bool
  noise : Nat → Bytes
  ecc : Nat → BitVec 32
  wp : Bool

inductive BbtTag where
  | unknown
  | res
  | bad
  | good
  deriving DecidableEq

namespace BbtTag

def toBits : BbtTag → BitVec 8
  | unknown => 0
  | res => 1
  | bad => 2
  | good => 3

/-- The tag of the two lowest bits. -/
def ofBits (bits : BitVec 8) : BbtTag :=
  if bits &&& 3 = 0 then unknown
  else if bits &&& 3 = 1 then res
  else if bits &&& 3 = 2 then bad
  else good

end BbtTag

/-- `struct ra_nand_chip` with the flash, the answers of the controller and the number of
    accesses so far. -/
structure RaNandChip where
  mode : ChipMode
  ranfcBbt : Bool
  bbt : Bytes
  buffers : Bytes
  flash : Nat → Bytes
  answers : Nat → NfcAnswer
  accesses : Nat

inductive NandError where
  | eio
  | einval
  | ebadmsg
  /-- A `BUG_ON`, or a null pointer that is followed. -/
  | bug
  deriving DecidableEq

inductive MtdOobMode where
  | place
  | auto
  | raw
  deriving DecidableEq

/-- `struct mtd_oob_ops`; a buffer is `none` if its pointer is null.  A read stores to its
    buffers, a write takes its bytes from them. -/
structure MtdOobOps where
  mode : MtdOobMode
  len : Nat
  ooblen : Nat
  ooboffs : Nat
  datbuf : Option Bytes
  oobbuf : Option Bytes

namespace RaNandChip

variable (c : RaNandChip)

/-- The answer to the next access. -/
def answer : NfcAnswer := c.answers c.accesses

def accessed : RaNandChip := { c with accesses := c.accesses + 1 }

/-! ## The controller -/

/-- Programming clears the bits that are clear in the mask. -/
def program (mask : Nat → Bytes) : RaNandChip :=
  { c with flash := fun page col => c.flash page col &&& mask page col }

/-- `nfc_enable_chip`: whether the chip can be used. -/
def nfcEnableChip (offs : Nat) (readOnly : Bool) : RaNandChip × Bool :=
  if c.mode.chipsize ≤ offs % 2 ^ 32 then (c, false)
  else if readOnly then (c, true)
  else (c.accessed, !c.answer.wp)

/-- The `BUG_ON` of the two OOB functions: the access starts in the OOB of the page and ends
    in its block. -/
def oobBug (page offs len : Nat) : Bool :=
  c.mode.oobsize ≤ offs ||
    (page / c.mode.pagesPerblock + 1) * c.mode.pagesPerblock <
      (offs + len) / c.mode.oobsize + page

def oobByte (page i : Nat) : BitVec 8 :=
  c.flash (page + i / c.mode.oobsize) (c.mode.pagesize + i % c.mode.oobsize)

/-- `nfc_read_oob`.  The bytes that were transferred are there also if it fails. -/
def nfcReadOob (page offs len : Nat) : RaNandChip × Except NandError (Bool × Bytes) :=
  if c.oobBug page offs len then (c, .error .bug)
  else if c.answer.fail then (c.accessed, .ok (false, c.answer.noise page))
  else (c.accessed, .ok (true, fun i => c.oobByte page (offs + i)))

/-- The mask that programs `len` bytes into the OOB bytes from `offs` of page `page` on. -/
def oobMask (page offs : Nat) (buf : Bytes) (len : Nat) : Nat → Bytes := fun p col =>
  let i := p * c.mode.oobsize + (col - c.mode.pagesize)
  let start := page * c.mode.oobsize + offs
  if c.mode.pagesize ≤ col ∧ col < c.mode.pagesize + c.mode.oobsize ∧ start ≤ i ∧ i < start + len
  then buf (i - start) else 0xff

def nfcWriteOob (page offs : Nat) (buf : Bytes) (len : Nat) : RaNandChip × Except NandError Bool :=
  if c.oobBug page offs len then (c, .error .bug)
  else if c.answer.fail then
    ((c.program (c.oobMask page offs (c.answer.noise page) len)).accessed, .ok false)
  else ((c.program (c.oobMask page offs buf len)).accessed, .ok true)

/-- One transfer of `nfc_read_page`: the bytes of a page and its OOB. -/
def pullPage (page : Nat) : RaNandChip × Bool × Bytes :=
  (c.accessed, !c.answer.fail, if c.answer.fail then c.answer.noise page else c.flash page)

/-- One transfer of `nfc_write_page`; with `ecc` the controller stores ECC bytes of its
    own. -/
def pushPage (page : Nat) (buf : Bytes) (ecc : Bool) : RaNandChip × Bool :=
  let size := c.mode.pagesize + c.mode.oobsize
  let mask : Nat → Bytes := fun p col =>
    if p = page ∧ col < size then
      if c.answer.fail || (ecc && (c.mode.eccPlaces.map c.mode.eccCol).contains col)
      then c.answer.noise page col else buf col
    else 0xff
  ((c.program mask).accessed, !c.answer.fail)

/-- The comparison at the end of `nfc_ecc_verify`: clean pages and pages without ECC bytes
    pass. -/
def eccMatches (page : Bytes) (ecc : Nat → BitVec 32) : Bool :=
  (range c.mode.eccWords).all (fun w => ecc w == 0) ||
    c.mode.eccPlaces.all (fun place => page (c.mode.eccCol place) == 0xff) ||
    c.mode.eccPlaces.all fun place =>
      page (c.mode.eccCol place) == (ecc place.1 >>> (8 * place.2)).setWidth 8

/-- `nfc_ecc_verify` after a write: the page is read back, twice if the first time fails. -/
def verifyWritten (page : Nat) : RaNandChip × Bool :=
  let ecc := c.answer.ecc
  match c.pullPage page with
  | (c, true, data) => (c, c.eccMatches data ecc)
  | (c, false, _) =>
    let ecc := c.answer.ecc
    match c.pullPage page with
    | (c, true, data) => (c, c.eccMatches data ecc)
    | (c, false, _) => (c, false)

/-- `nfc_read_page` into `ra->buffers`; the ECC is verified if `ecc` is set. -/
def nfcReadPage (page : Nat) (ecc : Bool) : RaNandChip × Except NandError Unit :=
  let regs := c.answer.ecc
  match c.pullPage page with
  | (c, ok, data) =>
    let c := { c with buffers := memcpy c.buffers 0 data (c.mode.pagesize + c.mode.oobsize) }
    if !ok then (c, .error .eio)
    else if ecc && !c.eccMatches c.buffers regs then (c, .error .ebadmsg)
    else (c, .ok ())

/-- `nfc_write_page` of `ra->buffers`: the page is tagged as one of a good block, and the
    block is marked on flash if the page cannot be verified. -/
def nfcWritePage (page : Nat) (verify ecc : Bool) : RaNandChip × Except NandError Unit :=
  let c := { c with buffers := update c.buffers c.mode.badblockCol 0xff }
  match c.pushPage page c.buffers ecc with
  | (c, false) => (c, .error .eio)
  | (c, true) =>
    if verify then
      match c.verifyWritten page with
      | (c, true) => (c, .ok ())
      | (c, false) =>
        let c := { c with buffers := update c.buffers c.mode.badblockCol 0x33 }
        if c.mode.isNandPage2048 then ((c.pushPage page c.buffers ecc).1, .error .ebadmsg)
        else
          let first := page - page % c.mode.pagesPerblock
          match c.nfcWriteOob first c.mode.badblockpos (fun _ => 0x33) 1 with
          | (c, .error e) => (c, .error e)
          | (c, .ok _) => (c, .error .ebadmsg)
    else (c, .ok ())

def nfcEraseBlock (page : Nat) : RaNandChip × Bool :=
  let block := page / c.mode.pagesPerblock
  ({ c with flash := fun p col =>
      if p / c.mode.pagesPerblock = block then
        if c.answer.fail then c.answer.noise p col else 0xff
      else c.flash p col }.accessed, !c.answer.fail)

/-! ## The bad-block table -/

def nandBbtGet (block : Nat) : BbtTag :=
  .ofBits (c.bbt (block * 2 / 8) >>> (block * 2 % 8))

def nandBbtSet (block : Nat) (tag : BbtTag) : RaNandChip :=
  let byte := block * 2 / 8
  let bits := block * 2 % 8
  let tagged := (c.bbt byte &&& ~~~((3 : BitVec 8) <<< bits)) ||| (tag.toBits <<< bits)
  { c with bbt := update c.bbt byte tagged }

/-- The tag that `nand_block_checkbad` finds on flash. -/
def scanTag (page : Nat) : RaNandChip × BbtTag :=
  match c.nfcReadOob page c.mode.badblockpos 1 with
  | (c, .ok (true, byte)) => (c, if byte 0 = 0xff then .good else .bad)
  | (c, _) => (c, .bad)

def nandBlockCheckbad (offs : Nat) : RaNandChip × Bool :=
  if !c.ranfcBbt then (c, false)
  else
    let block := c.mode.blockOf offs
    match c.nandBbtGet block with
    | .unknown =>
      let (c, tag) := c.scanTag (c.mode.pageOf offs)
      (c.nandBbtSet block tag, decide (tag ≠ .good))
    | tag => (c, decide (tag ≠ .good))

def nandBlockMarkbad (offs : Nat) : RaNandChip :=
  let page := c.mode.pageOf offs
  let block := c.mode.blockOf offs
  match c.nandBbtGet block with
  | .bad => c
  | _ =>
    match c.nfcReadPage page false with
    | (c, .error _) => c.nandBbtSet block .bad
    | (c, .ok _) =>
      if c.buffers c.mode.badblockCol = 0xff then
        let buffers := update c.buffers c.mode.badblockCol BbtTag.bad.toBits
        let c := { c with buffers := buffers }
        (c.nfcWritePage page false false).1.nandBbtSet block .bad
      else c.nandBbtSet block .bad

/-- `nand_erase_nand`: `n` blocks are left, from `addr` on. -/
def eraseBlocks : Nat → RaNandChip → Nat → RaNandChip × Except NandError Unit
  | 0, c, _ => (c, .ok ())
  | n + 1, c, addr =>
    let failed (c : RaNandChip) : RaNandChip × Except NandError Unit :=
      (c.nandBbtSet (addr / 2 ^ c.mode.eraseShift) .bad, .error .eio)
    match c.nfcEnableChip addr false with
    | (c, false) => failed c
    | (c, true) =>
      match c.nandBlockCheckbad addr with
      | (c, true) => failed c
      | (c, false) =>
        match c.nfcEraseBlock (addr / c.mode.pagesize) with
        | (c, false) => failed c
        | (c, true) => eraseBlocks n c (addr + 2 ^ c.mode.eraseShift)

def nandEraseNand (addr len : BitVec 32) : RaNandChip × Except NandError Unit :=
  let blocksize := 2 ^ c.mode.eraseShift
  if addr.toNat % blocksize ≠ 0 ∨ len.toNat % blocksize ≠ 0 then (c, .error .einval)
  else eraseBlocks (len.toNat / blocksize) c addr.toNat

end RaNandChip

/-! ## OOB buffers -/

/-- `ra_oob_layout.oobfree`: offset and length. -/
def oobfree : List (Nat × Nat) := [(0, 4), (8, 8)]

/-- `RA_CHIP_OOB_AVAIL` -/
def oobavail : Nat := 12

/-- The inner loop of `nand_write_oob_buf`: the free bytes of one page take bytes of `oob`
    from `src` on.  Returns the buffer, what is left of `woffs` and of `size`, and `src`. -/
def writeFree (base : Nat) (oob : Bytes) :
    List (Nat × Nat) → Bytes → Nat → Nat → Nat → Bytes × Nat × Nat × Nat
  | [], buf, woffs, size, src => (buf, woffs, size, src)
  | (offset, length) :: free, buf, woffs, size, src =>
    if size = 0 then (buf, woffs, size, src)
    else if length ≤ woffs then writeFree base oob free buf (woffs - length) size src
    else
      let bytes := min size (length - woffs)
      writeFree base oob free
        (memcpy buf (base + offset + woffs) (fun i => oob (src + i)) bytes) 0
        (size - bytes) (src + bytes)

/-- The outer loop: page after page until all bytes are placed.  Every round but the first
    takes some, so `size + 1` rounds are enough. -/
def writeAuto (oobsize : Nat) (oob : Bytes) :
    Nat → Bytes → Nat → Nat → Nat → Nat → Bytes
  | 0, buf, _, _, _, _ => buf
  | rounds + 1, buf, base, woffs, size, src =>
    if size = 0 then buf
    else
      let (buf, woffs, size, src) := writeFree base oob oobfree buf woffs size src
      writeAuto oobsize oob rounds buf (base + oobsize) woffs size src

/-- `nand_write_oob_buf` at `base`: the buffer and the number of bytes it has taken, or
    `none` for `-1`. -/
def nandWriteOobBuf (m : ChipMode) (buf : Bytes) (base : Nat) (oob : Bytes) (size : Nat)
    (mode : MtdOobMode) (ooboffs : Nat) : Option (Bytes × Nat) :=
  match mode with
  | .place | .raw =>
    if m.oobsize < ooboffs then none
    else
      let size := min size (m.oobsize - ooboffs)
      some (memcpy buf (base + ooboffs) oob size, size)
  | .auto =>
    if oobavail < ooboffs then none
    else some (writeAuto m.oobsize oob (size + 1) buf base ooboffs size 0, size)

/-- The loop of `nand_read_oob_buf`: the bytes from the free areas. -/
def readFree (buf : Bytes) (base : Nat) : List (Nat × Nat) → Nat → Nat → List (BitVec 8)
  | [], _, _ => []
  | (offset, length) :: free, woffs, size =>
    if size = 0 then []
    else if length ≤ woffs then readFree buf base free (woffs - length) size
    else
      let bytes := min size (length - woffs)
      (range bytes).map (fun i => buf (base + offset + woffs + i)) ++
        readFree buf base free 0 (size - bytes)

/-- `nand_read_oob_buf`: the bytes it copies, or `none` for `-1`. -/
def nandReadOobBuf (m : ChipMode) (buf : Bytes) (size : Nat) (mode : MtdOobMode) (ooboffs : Nat) :
    Option (List (BitVec 8)) :=
  match mode with
  | .place | .raw =>
    if m.oobsize < ooboffs then none
    else some ((range (min size (m.oobsize - ooboffs))).map fun i =>
      buf (m.pagesize + ooboffs + i))
  | .auto =>
    if oobavail < ooboffs then none
    else some (readFree buf m.pagesize oobfree ooboffs (min size (oobavail - ooboffs)))

/-! ## Reading and writing -/

/-- What is left to do of an operation (data and OOB bytes), how many of each are done, and
    the bytes that have been read. -/
structure Left where
  datalen : Nat
  ooblen : Nat
  retlen : Nat
  oobretlen : Nat
  dat : List (BitVec 8)
  oob : List (BitVec 8)
  deriving DecidableEq

/-- The number of data bytes that go to or come from the page of `addr`. -/
def dataLen (m : ChipMode) (ops : MtdOobOps) (addr datalen : Nat) : Nat :=
  if ops.datbuf.isSome then min datalen (m.pagesize - addr % m.pagesize) else 0

namespace Left

def dataDone (left : Left) (n : Nat) : Left :=
  { left with datalen := left.datalen - n, retlen := left.retlen + n }

def oobDone (left : Left) (n : Nat) : Left :=
  { left with ooblen := left.ooblen - n, oobretlen := left.oobretlen + n }

/-- The bytes of a round of a read. -/
def got (left : Left) (dat oob : List (BitVec 8)) : Left :=
  { left with dat := left.dat ++ dat, oob := left.oob ++ oob }

end Left

def MtdOobOps.start (ops : MtdOobOps) : Left where
  datalen := if ops.datbuf.isSome then ops.len else 0
  ooblen := ops.ooblen
  retlen := 0
  oobretlen := 0
  dat := []
  oob := []

namespace RaNandChip

variable (c : RaNandChip)

/-- The loop over the pages in `nand_do_read_ops` and in `nand_do_write_ops`, at `addr`: `rest`
    pages of the chip follow the one of `addr`, and behind the last one the chip cannot be
    enabled.  A round may end the loop with a result. -/
def pageLoop (round : RaNandChip → Nat → Left → RaNandChip × Left × Option (Except NandError Unit)) :
    Nat → RaNandChip → Nat → Left → RaNandChip × Except NandError Unit × Left
  | rest, c, addr, left =>
    if left.datalen = 0 ∧ left.ooblen = 0 then (c, .ok (), left)
    else
      match round c addr left with
      | (c, left, some ret) => (c, ret, left)
      | (c, left, none) =>
        match rest with
        | 0 =>
          if left.datalen = 0 ∧ left.ooblen = 0 then (c, .ok (), left)
          else (c, .error .eio, left)
        | rest + 1 => pageLoop round rest c ((c.mode.pageOf addr + 1) * c.mode.pagesize) left

/-- The two tries of `nand_do_read_ops` to read a page. -/
def readTwice (page : Nat) (ecc : Bool) : RaNandChip × Except NandError Unit :=
  match c.nfcReadPage page ecc with
  | (c, .ok ()) => (c, .ok ())
  | (c, .error _) => c.nfcReadPage page ecc

def readRound (ops : MtdOobOps) (c : RaNandChip) (addr : Nat) (left : Left) :
    RaNandChip × Left × Option (Except NandError Unit) :=
  match c.nfcEnableChip addr true with
  | (c, false) => (c, left, some (.error .eio))
  | (c, true) =>
    let block := addr / 2 ^ c.mode.eraseShift
    let (c, ret) := c.readTwice (c.mode.pageOf addr) (decide (ops.mode = .auto))
    let c := if ret = .ok () then c else c.nandBbtSet block .bad
    if ret = .error .eio then (c, left, some ret)
    else
      let oob := if ops.oobbuf.isSome && left.ooblen != 0
        then nandReadOobBuf c.mode c.buffers left.ooblen ops.mode ops.ooboffs else some []
      match oob with
      | none => (c, left, some (.error .einval))
      | some bytes =>
        let n := dataLen c.mode ops addr left.datalen
        let dat := (range n).map fun i => c.buffers (addr % c.mode.pagesize + i)
        let left := ((left.oobDone bytes.length).dataDone n).got dat bytes
        if n ≠ 0 ∧ ret ≠ .ok () then (c, left, some ret)
        else (c.nandBbtSet block .good, left, none)

def nandDoReadOps (start : Nat) (ops : MtdOobOps) : RaNandChip × Except NandError Unit × Left :=
  pageLoop (readRound ops) (c.mode.numpage - c.mode.pageOf start - 1) c start ops.start

/-- The OOB bytes of a round of `nand_do_write_ops` go to the buffer. -/
def fillOob (ops : MtdOobOps) (left : Left) : Option (RaNandChip × Nat) :=
  match ops.oobbuf with
  | some oob =>
    if left.ooblen = 0 then some (c, 0)
    else
      (nandWriteOobBuf c.mode c.buffers c.mode.pagesize (fun i => oob (left.oobretlen + i))
        left.ooblen ops.mode ops.ooboffs).map fun r => ({ c with buffers := r.1 }, r.2)
  | none => some (c, 0)

/-- The data bytes of a round go to the buffer. -/
def fillData (addr : Nat) (ops : MtdOobOps) (left : Left) (n : Nat) : RaNandChip :=
  match ops.datbuf with
  | some data =>
    let bytes : Bytes := fun i => data (left.retlen + i)
    { c with buffers := memcpy c.buffers (addr % c.mode.pagesize) bytes n }
  | none => c

/-- With `MTD_OOB_AUTO` the OOB bytes of the page are read first; an error is not noticed. -/
def preloadOob (page base len : Nat) (ops : MtdOobOps) : RaNandChip × Except NandError Unit :=
  match ops.mode with
  | .auto =>
    match c.nfcReadOob page 0 len with
    | (c, .error e) => (c, .error e)
    | (c, .ok (_, bytes)) => ({ c with buffers := memcpy c.buffers base bytes len }, .ok ())
  | _ => (c, .ok ())

/-- A round of the page loop of `nand_do_write_ops`. -/
def writeRound (ops : MtdOobOps) (c : RaNandChip) (addr : Nat) (left : Left) :
    RaNandChip × Left × Option (Except NandError Unit) :=
  match c.nfcEnableChip addr false with
  | (c, false) => (c, left, some (.error .eio))
  | (c, true) =>
    let page := c.mode.pageOf addr
    let block := addr / 2 ^ c.mode.eraseShift
    match c.preloadOob page c.mode.pagesize c.mode.oobsize ops with
    | (c, .error e) => (c, left, some (.error e))
    | (c, .ok ()) =>
      match c.fillOob ops left with
      | none => (c, left, some (.error .einval))
      | some (c, m) =>
        let n := dataLen c.mode ops addr left.datalen
        let c := c.fillData addr ops left n
        let left := (left.oobDone m).dataDone n
        let ecc := decide (ops.mode = .auto) && decide (n ≠ 0)
        match c.nfcWritePage page true ecc with
        | (c, .error e) => (c.nandBbtSet block .bad, left, some (.error e))
        | (c, .ok ()) => (c.nandBbtSet block .good, left, none)

/-- The number of bytes that an OOB write without data sends to the chip. -/
def oobBurstLen (ops : MtdOobOps) : Nat :=
  (ops.ooblen + ops.ooboffs + (oobavail - 1)) / oobavail * c.mode.oobsize

/-- The OOB write without data at the start of `nand_do_write_ops`. -/
def writeOobBurst (start : Nat) (ops : MtdOobOps) : RaNandChip × Except NandError Unit × Left :=
  let left := ops.start
  match c.nfcEnableChip start false with
  | (c, false) => (c, .error .eio, left)
  | (c, true) =>
    let len := c.oobBurstLen ops
    let page := c.mode.pageOf start
    let c := { c with buffers := memcpy c.buffers 0 (fun _ => 0xff) c.mode.pagesize }
    match c.preloadOob page 0 len ops with
    | (c, .error e) => (c, .error e, left)
    | (c, .ok ()) =>
      match ops.oobbuf with
      | none => (c, .error .bug, left)
      | some oob =>
        let buf := match nandWriteOobBuf c.mode c.buffers 0 oob ops.ooblen ops.mode ops.ooboffs with
          | none => c.buffers
          | some (buf, _) => buf
        let c := { c with buffers := buf }
        match c.nfcWriteOob page 0 c.buffers len with
        | (c, .error e) => (c, .error e, left)
        | (c, .ok _) => (c, .ok (), left.oobDone ops.ooblen)

def nandDoWriteOps (start : Nat) (ops : MtdOobOps) : RaNandChip × Except NandError Unit × Left :=
  let left := ops.start
  if left.datalen = 0 ∧ left.ooblen ≠ 0 then c.writeOobBurst start ops
  else pageLoop (writeRound ops) (c.mode.numpage - c.mode.pageOf start - 1) c start left

/-! ## The MTD interface -/

/-- The operation of a plain read or write. -/
def plainOps (len : Nat) (buf : Bytes) : MtdOobOps where
  mode := .auto
  len := len
  ooblen := 0
  ooboffs := 0
  datbuf := some buf
  oobbuf := none

/-- `ramtd_nand_read`: the result and the bytes read. -/
def ramtdNandRead (start len : Nat) : RaNandChip × Except NandError Unit × List (BitVec 8) :=
  if c.mode.chipsize < start + len then (c, .error .einval, [])
  else if len = 0 then (c, .ok (), [])
  else
    match c.nandDoReadOps start (plainOps len fun _ => 0) with
    | (c, ret, left) => (c, ret, left.dat)

/-- `ramtd_nand_write`: the result and the number of bytes written. -/
def ramtdNandWrite (start len : Nat) (buf : Bytes) : RaNandChip × Except NandError Unit × Nat :=
  if c.mode.chipsize < start + len then (c, .error .einval, 0)
  else if len = 0 then (c, .ok (), 0)
  else
    match c.nandDoWriteOps start (plainOps len buf) with
    | (c, ret, left) => (c, ret, left.retlen)

def ramtdNandBlockIsbad (offs : Nat) : RaNandChip × Except NandError Bool :=
  if c.mode.chipsize < offs then (c, .error .einval)
  else
    match c.nandBlockCheckbad offs with
    | (c, bad) => (c, .ok bad)

/-- The driver after a restart: memory is cleared, the flash stays. -/
def raNandInit : RaNandChip := { c with bbt := fun _ => 0, buffers := fun _ => 0 }

end RaNandChip

/-- A call of the MTD interface, or a restart. -/
inductive NandCall where
  | read (start len : Nat)
  | write (start len : Nat) (buf : Bytes)
  | erase (addr len : BitVec 32)
  | readoob (start : Nat) (ops : MtdOobOps)
  | writeoob (start : Nat) (ops : MtdOobOps)
  | blockIsbad (offs : Nat)
  | blockMarkbad (offs : Nat)
  | restart

/-- The driver after a call. -/
def RaNandChip.step (c : RaNandChip) : NandCall → RaNandChip
  | .read start len => (c.ramtdNandRead start len).1
  | .write start len buf => (c.ramtdNandWrite start len buf).1
  | .erase addr len => (c.nandEraseNand addr len).1
  | .readoob start ops => (c.nandDoReadOps start ops).1
  | .writeoob start ops => (c.nandDoWriteOps start ops).1
  | .blockIsbad offs => (c.ramtdNandBlockIsbad offs).1
  | .blockMarkbad offs => c.nandBlockMarkbad offs
  | .restart => c.raNandInit

end RalinkSdk.Nand
