import Mathlib
import RalinkSdk.Lib.Circular

/-!
# Block-ack reordering (`common/ba_action.c`)

A recipient session holds frames that came too early in a list sorted by sequence
number and hands frames to the upper layer in order.  The list entries
(`struct reordering_mpdu`) come from a free list that all sessions share.

## Conventions

- A received frame (`RX_BLK`) is the record of what the reordering code reads of it;
  `tag` stands for the identity of `pRxPacket`.
- What a function hands up (`ANNOUNCE_REORDERING_PACKET`, `INDICATE_LEGACY_OR_AMSDU`)
  or drops (`RELEASE_NDIS_PACKET`) is appended to the logs `up` and `released`.
- Each `while` loop over a list takes an entry out of it in every turn, so it runs
  on a counter that starts at the length of the list and cannot run out.
- Spin locks make each function one step.
-/

namespace RalinkSdk.BlockAck

/-! ## Sequence numbers (`include/mlme.h`) -/

def maxSeq : Nat := 0xFFF

def resetRcvSeq : Nat := 0xFFFF

def seqStepOne (seq1 seq2 : Nat) : Bool := seq1 == ((seq2 + 1) &&& maxSeq)

/-- `SEQ_SMALLER(_SEQ1, _SEQ2, MAXSEQ)`, an `int` subtraction masked by half the
    sequence space. -/
def seqSmaller (seq1 seq2 : Nat) : Bool :=
  ((BitVec.ofNat 32 seq1 - BitVec.ofNat 32 seq2) &&& BitVec.ofNat 32 ((maxSeq + 1) >>> 1)) != 0#32

/-! ## Data structures (`include/rtmp.h`) -/

/-- What the reordering code reads of a received frame. -/
structure RxBlk where
  sequence : Nat
  seq_le : sequence ≤ maxSeq
  eap : Bool
  amsdu : Bool
  dataSize : Nat
  tag : Nat
  deriving DecidableEq

/-- `struct reordering_mpdu`: a block of the pool, holding a frame.  Its `Sequence`
    is written together with `pPacket` and is that of the frame. -/
structure ReorderingMpdu where
  blk : Nat
  pPacket : RxBlk
  deriving DecidableEq

def ReorderingMpdu.sequence (m : ReorderingMpdu) : Nat := m.pPacket.sequence

structure ReorderingList (α : Type) where
  next : List α
  qlen : Int

inductive RecBlockackStatus where
  | none
  | used
  | handleRes
  | accept
  deriving DecidableEq

structure BaRecEntry where
  wcid : Nat
  tid : Nat
  baWinSize : Nat
  lastIndSeq : Nat
  lastIndSeqAtTimer : BitVec 32
  nDropPacket : Nat
  recBaStatus : RecBlockackStatus
  list : ReorderingList ReorderingMpdu

/-- What the reordering functions work on: the session, the shared free list of
    blocks, and the logs of frames handed up and released. -/
structure Rx where
  entry : BaRecEntry
  freelist : ReorderingList Nat
  up : List RxBlk
  released : List RxBlk

/-! ## Lists of blocks -/

def baEnqueue {α : Type} (list : ReorderingList α) (m : α) : ReorderingList α :=
  ⟨m :: list.next, list.qlen + 1⟩

/-- `ba_dequeue`: decides by `qlen`, then takes the head if there is one. -/
def baDequeue {α : Type} (list : ReorderingList α) : Option α × ReorderingList α :=
  if list.qlen ≠ 0 then
    match list.next with
    | [] => (none, { list with qlen := list.qlen - 1 })
    | m :: next => (some m, ⟨next, list.qlen - 1⟩)
  else (none, list)

/-- The scan of `ba_reordering_mpdu_insertsorted`; `none` for a duplicate. -/
def insertScan (m : ReorderingMpdu) : List ReorderingMpdu → Option (List ReorderingMpdu)
  | [] => some [m]
  | x :: xs =>
    if seqSmaller x.sequence m.sequence then (insertScan m xs).map (x :: ·)
    else if x.sequence = m.sequence then none
    else some (m :: x :: xs)

def baReorderingMpduInsertsorted (list : ReorderingList ReorderingMpdu) (m : ReorderingMpdu) :
    Bool × ReorderingList ReorderingMpdu :=
  match insertScan m list.next with
  | none => (false, list)
  | some next => (true, ⟨next, list.qlen + 1⟩)

/-! ## Updates -/

def Rx.setLastIndSeq (s : Rx) (seq : Nat) : Rx :=
  { s with entry := { s.entry with lastIndSeq := seq } }

def Rx.setTimer (s : Rx) (now : BitVec 32) : Rx :=
  { s with entry := { s.entry with lastIndSeqAtTimer := now } }

def Rx.setList (s : Rx) (list : ReorderingList ReorderingMpdu) : Rx :=
  { s with entry := { s.entry with list := list } }

/-- A frame goes to the upper layer. -/
def Rx.handUp (s : Rx) (p : RxBlk) : Rx := { s with up := s.up ++ [p] }

def Rx.releaseNdisPacket (s : Rx) (p : RxBlk) : Rx := { s with released := s.released ++ [p] }

/-- `pBAEntry->nDropPacket++` and `RELEASE_NDIS_PACKET` -/
def Rx.drop (s : Rx) (p : RxBlk) : Rx :=
  Rx.releaseNdisPacket { s with entry := { s.entry with nDropPacket := s.entry.nDropPacket + 1 } } p

def baMpduBlkAlloc (s : Rx) : Option Nat × Rx :=
  ((baDequeue s.freelist).1, { s with freelist := (baDequeue s.freelist).2 })

def baMpduBlkFree (s : Rx) (blk : Nat) : Rx := { s with freelist := baEnqueue s.freelist blk }

/-! ## Handing up queued frames -/

/-- The loop of the two `ba_indicate_reordering_mpdus_*` functions: while the head
    of the list passes the test, dequeue it, hand it up and free its block.  The test
    may depend on the last number handed up; the result is that number. -/
def indicateWhile (test : Nat → ReorderingMpdu → Bool) :
    (turns : Nat) → (s : Rx) → (startSeq lastIndSeq : Nat) → Rx × Nat
  | 0, s, _, lastIndSeq => (s, lastIndSeq)
  | turns + 1, s, startSeq, lastIndSeq =>
    -- ba_reordering_mpdu_probe
    match s.entry.list.next with
    | [] => (s, lastIndSeq)
    | m :: _ =>
      if test startSeq m = false then (s, lastIndSeq)
      else
        match baDequeue s.entry.list with
        -- qlen 0 in front of a nonempty list
        | (none, list) => (s.setList list, lastIndSeq)
        | (some m, list) =>
          let s := baMpduBlkFree ((s.setList list).handUp m.pPacket) m.blk
          indicateWhile test turns s m.sequence m.sequence

/-- `ba_indicate_reordering_mpdus_in_order`: the new `LastIndSeq`, or
    `RESET_RCV_SEQ` when nothing was handed up. -/
def baIndicateReorderingMpdusInOrder (s : Rx) (startSeq : Nat) : Rx × Nat :=
  indicateWhile (fun start m => seqStepOne m.sequence start) s.entry.list.next.length s startSeq
    resetRcvSeq

def baIndicateReorderingMpdusLeSeq (s : Rx) (sequence : Nat) : Rx :=
  (indicateWhile (fun _ m => m.sequence == sequence || seqSmaller m.sequence sequence)
    s.entry.list.next.length s sequence resetRcvSeq).1

/-- Hand up what follows `LastIndSeq` without a gap, and move it there: the call of
    `ba_indicate_reordering_mpdus_in_order` with what every caller does with its
    result. -/
def continueInOrder (s : Rx) : Rx :=
  let r := baIndicateReorderingMpdusInOrder s s.entry.lastIndSeq
  if r.2 ≠ resetRcvSeq then r.1.setLastIndSeq r.2 else r.1

/-- The loop of `ba_refresh_reordering_mpdus`. -/
def refreshLoop : (turns : Nat) → Rx → Rx
  | 0, s => s
  | turns + 1, s =>
    match baDequeue s.entry.list with
    | (none, list) => s.setList list
    | (some m, list) =>
      refreshLoop turns
        (baMpduBlkFree (((s.setList list).handUp m.pPacket).setLastIndSeq m.sequence) m.blk)

/-- `ba_refresh_reordering_mpdus`: hand everything up and forget the sequence. -/
def baRefreshReorderingMpdus (s : Rx) : Rx :=
  (refreshLoop (s.entry.list.next.length + 1) s).setLastIndSeq resetRcvSeq

/-! ## Timeouts -/

/-- `RTMP_TIME_AFTER(a, b)`: `(long)b - (long)a < 0` on 32-bit ticks. -/
def rtmpTimeAfter (a b : BitVec 32) : Bool := (b - a).msb

/-- `REORDERING_PACKET_TIMEOUT`: 100 ms at 250 ticks a second. -/
def reorderingPacketTimeout : Nat := 100 * 250 / 1000

def maxReorderingPacketTimeout : Nat := 3000 * 250 / 1000

def recBaSessionIdleTimeout : Nat := 1000

/-- The flush-one branch: move `LastIndSeq` on by one and go on in order. -/
def flushOne (s : Rx) (now : BitVec 32) : Rx :=
  let sequence := (s.entry.lastIndSeq + 1) &&& maxSeq
  continueInOrder
    (((baIndicateReorderingMpdusLeSeq s sequence).setTimer now).setLastIndSeq sequence)

def baFlushReorderingTimeoutMpdus (s : Rx) (now : BitVec 32) : Rx :=
  if s.entry.list.qlen ≤ 0 then s
  else if rtmpTimeAfter now
        (s.entry.lastIndSeqAtTimer + BitVec.ofNat 32 (maxReorderingPacketTimeout / 6)) = true ∧
      1 < s.entry.list.qlen then
    (baRefreshReorderingMpdus s).setTimer now
  else if rtmpTimeAfter now
        (s.entry.lastIndSeqAtTimer + BitVec.ofNat 32 reorderingPacketTimeout) = true ∧
      0 < s.entry.list.qlen then
    flushOne s now
  else s

def baRecSessionIdleTimeout (s : Rx) (now : BitVec 32) : Rx :=
  if s.entry.recBaStatus = .accept ∧
      rtmpTimeAfter now
        (s.entry.lastIndSeqAtTimer + BitVec.ofNat 32 recBaSessionIdleTimeout) = true then
    baRefreshReorderingMpdus s
  else s

/-! ## Arrivals -/

def maxRxPktLen : Nat := 1520

/-- `ba_enqueue_reordering_packet`.  The block is taken before `fRX_EAP` is looked
    at. -/
def baEnqueueReorderingPacket (s : Rx) (p : RxBlk) : Rx :=
  match baMpduBlkAlloc s with
  | (some blk, s') =>
    if p.eap = false then
      match baReorderingMpduInsertsorted s'.entry.list ⟨blk, p⟩ with
      | (true, list) => s'.setList list
      | (false, _) => baMpduBlkFree (s'.releaseNdisPacket p) blk
    else ((baIndicateReorderingMpdusLeSeq s' p.sequence).setLastIndSeq p.sequence).handUp p
  | (none, s') =>
    ((baIndicateReorderingMpdusLeSeq s' p.sequence).setLastIndSeq p.sequence).handUp p

/-- `WinStartSeq` of case V, with the source's signed arithmetic. -/
def winStartSeq (sequence baWinSize : Nat) : Nat :=
  let tmpSeq : Int := (sequence : Int) - baWinSize - 1
  let tmpSeq := if tmpSeq < 0 then (maxSeq : Int) + 1 + tmpSeq else tmpSeq
  (tmpSeq + 1).toNat &&& maxSeq

/-- The arrival cases of `Indicate_AMPDU_Packet`, behind the timeout flush. -/
def indicateArrival (s : Rx) (now : BitVec 32) (p : RxBlk) : Rx :=
  if s.entry.lastIndSeq = resetRcvSeq then
    ((s.setLastIndSeq p.sequence).setTimer now).handUp p
  -- I. in order
  else if seqStepOne p.sequence s.entry.lastIndSeq then
    (continueInOrder ((s.setLastIndSeq p.sequence).handUp p)).setTimer now
  -- II. duplicate
  else if p.sequence = s.entry.lastIndSeq then s.drop p
  -- III. old
  else if seqSmaller p.sequence s.entry.lastIndSeq then s.drop p
  -- IV. inside the window
  else if seqSmaller p.sequence ((s.entry.lastIndSeq + s.entry.baWinSize + 1) &&& maxSeq) then
    baEnqueueReorderingPacket s p
  -- V. beyond the window, which moves up
  else
    let start := winStartSeq p.sequence s.entry.baWinSize
    continueInOrder (baEnqueueReorderingPacket
      (((baIndicateReorderingMpdusLeSeq s start).setLastIndSeq start).setTimer now) p)

/-- Neither an A-MSDU nor short enough. -/
def RxBlk.oversize (p : RxBlk) : Bool := !p.amsdu && decide (maxRxPktLen < p.dataSize)

def indicateAmpduPacket (s : Rx) (now : BitVec 32) (p : RxBlk) : Rx :=
  if p.oversize then s.releaseNdisPacket p
  else indicateArrival ((baFlushReorderingTimeoutMpdus s now).setTimer now) now p

/-- `CntlEnqueueForRecv` for a well-formed BAR frame: hand up to `StartSeq`, and
    expect `StartSeq` next. -/
def cntlEnqueueForRecv (s : Rx) (startSeq : Nat) : Rx :=
  if seqSmaller s.entry.lastIndSeq startSeq then
    (baIndicateReorderingMpdusLeSeq s startSeq).setLastIndSeq
      (if startSeq = 0 then maxSeq else startSeq - 1)
  else s

/-- What `BARecSessionAdd` does to the entry of a session, new or existing. -/
def recEntryFill (e : BaRecEntry) (wcid tid baWinSize : Nat) : BaRecEntry :=
  { e with
    recBaStatus := .accept
    baWinSize := baWinSize
    wcid := wcid
    tid := tid
    lastIndSeq := resetRcvSeq }

end RalinkSdk.BlockAck
