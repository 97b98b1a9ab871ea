import RalinkSdk.BlockAck.Reorder

/-!
# Block-ack sessions (`common/ba_action.c`)

The adapter keeps two tables of sessions, one for the sessions it sends in
(originator) and one for those it receives in (recipient).  Each station has two
arrays that say which slot its session for a TID is in; 0 says that there is none.

## Conventions

- `RTMP_ADAPTER` is the record of what the session code reads and writes of it.
  The recipient functions of `RalinkSdk.BlockAck.Reorder` work on one slot and the
  shared free list: `Adapter.onRec`.
- `ULONG` counters wrap at zero.
- Timers are not modelled: a timeout is an event that may come at any time, for any
  slot.  What only a timer reads (`DelayTime`, `BADeclineBitmap`) is left out.
- Where a function allocates memory for a frame it sends, `allocOk` says whether that
  works; the frames themselves are not modelled.
-/

namespace RalinkSdk.BlockAck

open Function

/-! ## Sizes (`include/rtmp_def.h`, `include/oid.h`) -/

def maxLenOfMacTable : Nat := 32

def numOfTid : Nat := 8

def maxLenOfBaRecTable : Nat := numOfTid * maxLenOfMacTable / 2

def maxLenOfBaOriTable : Nat := numOfTid * maxLenOfMacTable / 2

def oriSessionMaxRetry : Nat := 8

/-! ## Data structures (`include/rtmp.h`) -/

inductive OriBlockackStatus where
  | none
  | used
  | waitRes
  | done
  deriving DecidableEq

structure BaOriEntry where
  wcid : Nat
  tid : Nat
  baWinSize : Nat
  token : Nat
  sequence : Nat
  timeOutValue : Nat
  oriBaStatus : OriBlockackStatus

/-- What the session code uses of a `MAC_TABLE_ENTRY`.  `fixedTxMode` is what
    `RTMPStaFixedTxMode` finds for the station. -/
structure MacTableEntry where
  aid : Nat
  fixedTxMode : Nat
  maxRAmpduFactor : Nat
  wepDisabled : Bool
  txSeq : Nat → Nat
  rxBaBitmap : BitVec 16
  txBaBitmap : BitVec 16
  baRecWcidArray : Nat → Nat
  baOriWcidArray : Nat → Nat

/-- What the session code uses of `RTMP_ADAPTER`, with `BA_TABLE`, the free list of
    reordering blocks, and the logs of frames handed up and released. -/
structure Adapter where
  macTab : Nat → MacTableEntry
  numAsRecipient : Nat
  numAsOriginator : Nat
  numDoneOriginator : Nat
  baOriEntry : Nat → BaOriEntry
  baRecEntry : Nat → BaRecEntry
  freelist : ReorderingList Nat
  up : List RxBlk
  released : List RxBlk
  autoBa : Bool
  rxBaWinLimit : Nat
  macVersion : Nat

/-! ## Updates -/

/-- `n - 1` on a `ULONG`. -/
def ulongPred (n : Nat) : Nat := if n = 0 then 2 ^ 32 - 1 else n - 1

def tidBit (tid : Nat) : BitVec 16 := 1#16 <<< tid

def Adapter.setRec (a : Adapter) (i : Nat) (e : BaRecEntry) : Adapter :=
  { a with baRecEntry := update a.baRecEntry i e }

def Adapter.setOri (a : Adapter) (i : Nat) (e : BaOriEntry) : Adapter :=
  { a with baOriEntry := update a.baOriEntry i e }

def Adapter.setMac (a : Adapter) (wcid : Nat) (e : MacTableEntry) : Adapter :=
  { a with macTab := update a.macTab wcid e }

def Adapter.setNumRec (a : Adapter) (n : Nat) : Adapter := { a with numAsRecipient := n }

def Adapter.setNumOri (a : Adapter) (n : Nat) : Adapter := { a with numAsOriginator := n }

def Adapter.setNumDone (a : Adapter) (n : Nat) : Adapter := { a with numDoneOriginator := n }

/-- `MacTab.Content[wcid].BARecWcidArray[tid] = idx` -/
def Adapter.setRecIdx (a : Adapter) (wcid tid idx : Nat) : Adapter :=
  a.setMac wcid { a.macTab wcid with
    baRecWcidArray := update (a.macTab wcid).baRecWcidArray tid idx }

/-- `MacTab.Content[wcid].BAOriWcidArray[tid] = idx` -/
def Adapter.setOriIdx (a : Adapter) (wcid tid idx : Nat) : Adapter :=
  a.setMac wcid { a.macTab wcid with
    baOriWcidArray := update (a.macTab wcid).baOriWcidArray tid idx }

/-- `MacTab.Content[wcid].RXBAbitmap = bitmap` -/
def Adapter.setRxBitmap (a : Adapter) (wcid : Nat) (bitmap : BitVec 16) : Adapter :=
  a.setMac wcid { a.macTab wcid with rxBaBitmap := bitmap }

/-- `MacTab.Content[wcid].TXBAbitmap = bitmap` -/
def Adapter.setTxBitmap (a : Adapter) (wcid : Nat) (bitmap : BitVec 16) : Adapter :=
  a.setMac wcid { a.macTab wcid with txBaBitmap := bitmap }

/-- The part of the adapter that the reordering functions work on. -/
def Adapter.rx (a : Adapter) (i : Nat) : Rx := ⟨a.baRecEntry i, a.freelist, a.up, a.released⟩

/-- Run a reordering function on slot `i`. -/
def Adapter.onRec (a : Adapter) (i : Nat) (f : Rx → Rx) : Adapter :=
  { a with
    baRecEntry := update a.baRecEntry i (f (a.rx i)).entry
    freelist := (f (a.rx i)).freelist
    up := (f (a.rx i)).up
    released := (f (a.rx i)).released }

/-! ## Slots -/

/-- The scan of the two allocators, with the slot that `pBAEntry` points to and
    `*Idx`: nothing if the counter says that the table is full, else the first slot
    from 1 on with status NONE.  A scan that finds none leaves `pBAEntry` at the last
    slot and `*Idx` as it was. -/
def baTableScan (num len : Nat) (isNone : Nat → Bool) (idx : Nat) : Option Nat × Nat :=
  if len - 1 ≤ num then (none, idx)
  else
    match (List.range' 1 (len - 1)).find? isNone with
    | some i => (some i, i)
    | none => (some (len - 1), idx)

def baTableAllocRecEntry (a : Adapter) (idx : Nat) : Option Nat × Nat × Adapter :=
  let isNone := fun i => decide ((a.baRecEntry i).recBaStatus = .none)
  let r := baTableScan a.numAsRecipient maxLenOfBaRecTable isNone idx
  match r.1 with
  | none => (none, r.2, a)
  | some i =>
    if isNone i then
      (some i, r.2, (a.setRec i { a.baRecEntry i with recBaStatus := .used }).setNumRec
        (a.numAsRecipient + 1))
    else (some i, r.2, a)

def baTableAllocOriEntry (a : Adapter) (idx : Nat) : Option Nat × Nat × Adapter :=
  let isNone := fun i => decide ((a.baOriEntry i).oriBaStatus = .none)
  let r := baTableScan a.numAsOriginator maxLenOfBaOriTable isNone idx
  match r.1 with
  | none => (none, r.2, a)
  | some i =>
    if isNone i then
      (some i, r.2, (a.setOri i { a.baOriEntry i with oriBaStatus := .used }).setNumOri
        (a.numAsOriginator + 1))
    else (some i, r.2, a)

def baTableFreeRecEntry (a : Adapter) (idx : Nat) : Adapter :=
  if idx = 0 ∨ maxLenOfBaRecTable ≤ idx then a
  else
    let e := a.baRecEntry idx
    if e.recBaStatus ≠ .none then
      let a := a.setRecIdx e.wcid e.tid 0
      (a.setRec idx { e with recBaStatus := .none }).setNumRec (ulongPred a.numAsRecipient)
    else a

def baTableFreeOriEntry (a : Adapter) (idx : Nat) : Adapter :=
  if idx = 0 ∨ maxLenOfBaOriTable ≤ idx then a
  else
    let e := a.baOriEntry idx
    if e.oriBaStatus ≠ .none then
      let a := a.setOriIdx e.wcid e.tid 0
      let a := if e.oriBaStatus = .done then
          (a.setTxBitmap e.wcid ((a.macTab e.wcid).txBaBitmap &&& ~~~ tidBit e.tid)).setNumDone
            (ulongPred a.numDoneOriginator)
        else a
      (a.setOri idx { e with oriBaStatus := .none, token := 0 }).setNumOri
        (ulongPred a.numAsOriginator)
    else a

/-! ## Originator sessions -/

def fixedTxModeHt : Nat := 0

def OriBlockackStatus.geWaitRes : OriBlockackStatus → Bool
  | .none | .used => false
  | .waitRes | .done => true

/-- `BAOriSessionSetUp` for the station at `wcid`. -/
def baOriSessionSetUp (a : Adapter) (wcid tid timeOut : Nat) (isForced : Bool) : Adapter :=
  if numOfTid ≤ tid then a
  else if a.autoBa = false ∧ isForced = false then a
  else if (a.macTab wcid).fixedTxMode ≠ fixedTxModeHt then a
  else
    let idx := (a.macTab wcid).baOriWcidArray tid
    let r := if idx = 0 then baTableAllocOriEntry a idx else (some idx, idx, a)
    match r with
    | (none, _, a) => a
    | (some i, idx, a) =>
      if (a.baOriEntry i).oriBaStatus.geWaitRes then a
      else
        let a := a.setOriIdx wcid tid idx
        a.setOri i { a.baOriEntry i with
          oriBaStatus := .waitRes
          wcid := (a.macTab wcid).aid
          baWinSize := a.rxBaWinLimit
          sequence := (a.macTab wcid).txSeq tid
          token := 1
          tid := tid
          timeOutValue := timeOut }

/-- `BA_MaxWinSizeReasign`: the chip and the peer bound the window. -/
def baMaxWinSizeReasign (a : Adapter) (peer : MacTableEntry) (winSize : Nat) : Nat :=
  let maxPeerRxSize := ((2 ^ (peer.maxRAmpduFactor + 3) * 10) / 16 - 1) % 256
  let maxSize :=
    if 0x28830300 ≤ a.macVersion then
      if 0x30700200 ≤ a.macVersion then (if peer.wepDisabled then 13 else 7) else 31
    else if 0x28720200 ≤ a.macVersion then (if peer.wepDisabled then 13 else 7)
    else 7
  let maxSize := min maxPeerRxSize maxSize
  if maxSize < winSize then maxSize else winSize

/-- `BAOriSessionAdd` for the station at `wcid`, on an ADDBA response. -/
def baOriSessionAdd (a : Adapter) (wcid tid bufSize timeOut : Nat) : Adapter :=
  let idx := (a.macTab wcid).baOriWcidArray tid
  let e := a.baOriEntry idx
  if idx ≠ 0 ∧ e.tid = tid ∧ e.oriBaStatus = .waitRes then
    let maxPeerBufSize := bufSize % 256 - 1
    let winSize := baMaxWinSizeReasign a (a.macTab wcid) (min e.baWinSize maxPeerBufSize)
    let a := (a.setOri idx { e with
      baWinSize := winSize
      timeOutValue := timeOut
      oriBaStatus := .done
      sequence := (a.macTab wcid).txSeq tid }).setNumDone (a.numDoneOriginator + 1)
    a.setTxBitmap wcid ((a.macTab wcid).txBaBitmap ||| tidBit tid)
  else a

def baOriSessionTearDown (a : Adapter) (wcid tid : Nat) (bPassive allocOk : Bool) : Adapter :=
  if maxLenOfMacTable ≤ wcid then a
  else
    let idx := (a.macTab wcid).baOriWcidArray tid
    -- a forced DELBA frame is all that is sent without a session
    if idx = 0 ∨ maxLenOfBaOriTable ≤ idx then a
    else
      let e := a.baOriEntry idx
      if bPassive = false ∧ tid = e.tid ∧ e.oriBaStatus = .done ∧ allocOk = false then a
      else baTableFreeOriEntry a idx

/-- `BAOriSessionSetupTimeout` for slot `i`.  `off` stands for monitor and ATE mode,
    `scanning` for a station that is scanning; both only put the request off. -/
def baOriSessionSetupTimeout (a : Adapter) (i : Nat) (off scanning : Bool) : Adapter :=
  if off then a
  else
    let e := a.baOriEntry i
    if e.oriBaStatus = .waitRes ∧ e.token < oriSessionMaxRetry then
      if scanning then a
      else a.setOri i { e with token := e.token + 1 }
    else baTableFreeOriEntry a ((a.macTab e.wcid).baOriWcidArray e.tid)

/-! ## Recipient sessions -/

/-- `BAWinSize` of a new session: the smaller of the two buffer sizes, as bytes; 64
    for 0. -/
def recBaWinSize (bufSize rxBaWinLimit : Nat) : Nat :=
  let baWinSize := min (bufSize % 256) (rxBaWinLimit % 256)
  if baWinSize = 0 then 64 else baWinSize

/-- `BARecSessionAdd` for the station at `wcid`, on an ADDBA request. -/
def baRecSessionAdd (a : Adapter) (wcid tid bufSize : Nat) : Bool × Adapter :=
  let idx := (a.macTab wcid).baRecWcidArray tid
  let r := if idx = 0 then baTableAllocRecEntry a idx
    else (some idx, idx, a.onRec idx baRefreshReorderingMpdus)
  match r with
  | (none, _, a) => (false, a)
  | (some i, idx, a) =>
    let a := a.setRec i (recEntryFill (a.baRecEntry i) (a.macTab wcid).aid tid
      (recBaWinSize bufSize a.rxBaWinLimit))
    let a := a.setRxBitmap wcid ((a.macTab wcid).rxBaBitmap ||| tidBit tid)
    (true, a.setRecIdx wcid tid idx)

def baRecSessionTearDown (a : Adapter) (wcid tid : Nat) (bPassive allocOk : Bool) : Adapter :=
  if maxLenOfMacTable ≤ wcid then a
  else
    let idx := (a.macTab wcid).baRecWcidArray tid
    if idx = 0 then a
    else
      let e := a.baRecEntry idx
      if tid = e.tid ∧ e.recBaStatus = .accept then
        if bPassive = false ∧ allocOk = false then a
        else
          let a := a.onRec idx baRefreshReorderingMpdus
          let a := a.setRec idx { a.baRecEntry idx with lastIndSeq := resetRcvSeq, baWinSize := 0 }
          let a := a.setRxBitmap wcid ((a.macTab wcid).rxBaBitmap &&& ~~~ tidBit e.tid)
          baTableFreeRecEntry (a.setRecIdx wcid tid 0) idx
      else baTableFreeRecEntry a idx

def baSessionTearDownAll (a : Adapter) (wcid : Nat) (allocOk : Bool) : Adapter :=
  (List.range numOfTid).foldl (fun a tid =>
    baRecSessionTearDown (baOriSessionTearDown a wcid tid false allocOk) wcid tid false allocOk) a

/-! ## Frames and timeouts of a session -/

def Adapter.indicateAmpduPacket (a : Adapter) (now : BitVec 32) (wcid tid : Nat) (p : RxBlk) :
    Adapter :=
  if p.oversize then { a with released := a.released ++ [p] }
  else if wcid < maxLenOfMacTable then
    let idx := (a.macTab wcid).baRecWcidArray tid
    if idx = 0 then { a with up := a.up ++ [p] }
    else a.onRec idx fun s => BlockAck.indicateAmpduPacket s now p
  else { a with released := a.released ++ [p] }

/-- The same behind the timeout flush. -/
def Adapter.indicateArrival (a : Adapter) (now : BitVec 32) (wcid tid : Nat) (p : RxBlk) :
    Adapter :=
  if p.oversize then { a with released := a.released ++ [p] }
  else if wcid < maxLenOfMacTable then
    let idx := (a.macTab wcid).baRecWcidArray tid
    if idx = 0 then { a with up := a.up ++ [p] }
    else a.onRec idx fun s => BlockAck.indicateArrival (s.setTimer now) now p
  else { a with released := a.released ++ [p] }

/-- `CntlEnqueueForRecv`, with the look-up of the session.  Without a session the
    unused slot 0 is taken. -/
def Adapter.cntlEnqueueForRecv (a : Adapter) (wcid tid startSeq : Nat) : Adapter :=
  if wcid < maxLenOfMacTable ∧ tid < numOfTid then
    a.onRec ((a.macTab wcid).baRecWcidArray tid) fun s => BlockAck.cntlEnqueueForRecv s startSeq
  else a

/-! ## Events -/

inductive AdapterEvent where
  | oriSetUp (wcid tid timeOut : Nat) (isForced : Bool)
      (h : wcid < maxLenOfMacTable ∧ tid < numOfTid)
  | oriAdd (wcid tid bufSize timeOut : Nat) (h : wcid < maxLenOfMacTable ∧ tid < numOfTid)
  | oriTearDown (wcid tid : Nat) (bPassive allocOk : Bool) (h : tid < numOfTid)
  | oriTimeout (i : Nat) (off scanning : Bool) (h : i < maxLenOfBaOriTable)
  | recAdd (wcid tid bufSize : Nat) (h : wcid < maxLenOfMacTable ∧ tid < numOfTid)
  | recTearDown (wcid tid : Nat) (bPassive allocOk : Bool) (h : tid < numOfTid)
  | tearDownAll (wcid : Nat) (allocOk : Bool)
  /-- `ba_flush_reordering_timeout_mpdus` for slot `i`: `BaReOrderingBufferMaintain`, or the
      start of `Indicate_AMPDU_Packet` -/
  | recFlush (i : Nat) (now : BitVec 32) (h : i < maxLenOfBaRecTable)
  /-- `BARecSessionIdleTimeout` for slot `i` -/
  | recIdle (i : Nat) (now : BitVec 32) (h : i < maxLenOfBaRecTable)
  /-- `Indicate_AMPDU_Packet` behind the timeout flush -/
  | arrival (now : BitVec 32) (wcid tid : Nat) (p : RxBlk) (h : tid < numOfTid)
  | bar (wcid tid startSeq : Nat) (h : startSeq ≤ maxSeq)

/-- The adapter handles one event. -/
def Adapter.step (a : Adapter) : AdapterEvent → Adapter
  | .oriSetUp wcid tid timeOut isForced _ => baOriSessionSetUp a wcid tid timeOut isForced
  | .oriAdd wcid tid bufSize timeOut _ => baOriSessionAdd a wcid tid bufSize timeOut
  | .oriTearDown wcid tid bPassive allocOk _ => baOriSessionTearDown a wcid tid bPassive allocOk
  | .oriTimeout i off scanning _ => baOriSessionSetupTimeout a i off scanning
  | .recAdd wcid tid bufSize _ => (baRecSessionAdd a wcid tid bufSize).2
  | .recTearDown wcid tid bPassive allocOk _ => baRecSessionTearDown a wcid tid bPassive allocOk
  | .tearDownAll wcid allocOk => baSessionTearDownAll a wcid allocOk
  | .recFlush i now _ => a.onRec i fun s => baFlushReorderingTimeoutMpdus s now
  | .recIdle i now _ => a.onRec i fun s => baRecSessionIdleTimeout s now
  | .arrival now wcid tid p _ => a.indicateArrival now wcid tid p
  | .bar wcid tid startSeq _ => a.cntlEnqueueForRecv wcid tid startSeq

theorem Adapter.onRec_onRec (a : Adapter) (i : Nat) (f g : Rx → Rx) :
    (a.onRec i f).onRec i g = a.onRec i fun s => g (f s) := by
  have hrx : (a.onRec i f).rx i = f (a.rx i) := by
    simp only [Adapter.rx, Adapter.onRec, update_self]
  simp only [Adapter.onRec] at hrx ⊢
  rw [hrx, update_idem]

theorem Adapter.indicateAmpduPacket_eq (a : Adapter) (now : BitVec 32) {wcid tid : Nat} {p : RxBlk}
    (hsize : p.oversize = false) (hw : wcid < maxLenOfMacTable) (ht : tid < numOfTid)
    (hidx : (a.macTab wcid).baRecWcidArray tid ≠ 0)
    (hlt : (a.macTab wcid).baRecWcidArray tid < maxLenOfBaRecTable) :
    a.indicateAmpduPacket now wcid tid p =
      (a.step (.recFlush ((a.macTab wcid).baRecWcidArray tid) now hlt)).step
        (.arrival now wcid tid p ht) := by
  have hflush : a.step (.recFlush ((a.macTab wcid).baRecWcidArray tid) now hlt) =
      a.onRec ((a.macTab wcid).baRecWcidArray tid) fun s => baFlushReorderingTimeoutMpdus s now :=
    rfl
  rw [hflush]
  -- the flush leaves the station arrays alone, so the look-up finds the same slot
  simp only [Adapter.step, Adapter.indicateAmpduPacket, Adapter.indicateArrival, hsize, hw, if_true,
    Bool.false_eq_true, if_false]
  have hsame : ((a.onRec ((a.macTab wcid).baRecWcidArray tid)
      fun s => baFlushReorderingTimeoutMpdus s now).macTab wcid).baRecWcidArray tid =
      (a.macTab wcid).baRecWcidArray tid := rfl
  rw [hsame, if_neg hidx, if_neg hidx, Adapter.onRec_onRec]
  simp only [BlockAck.indicateAmpduPacket, hsize, Bool.false_eq_true, if_false]

theorem Adapter.indicateAmpduPacket_eq_arrival (a : Adapter) (now : BitVec 32) {wcid tid : Nat}
    {p : RxBlk} (ht : tid < numOfTid)
    (h : p.oversize = true ∨ maxLenOfMacTable ≤ wcid ∨ (a.macTab wcid).baRecWcidArray tid = 0) :
    a.indicateAmpduPacket now wcid tid p = a.step (.arrival now wcid tid p ht) := by
  change _ = a.indicateArrival now wcid tid p
  unfold Adapter.indicateAmpduPacket Adapter.indicateArrival
  rcases h with hsize | hw | hidx
  · rw [if_pos hsize, if_pos hsize]
  · rw [if_neg (Nat.not_lt.mpr hw), if_neg (Nat.not_lt.mpr hw)]
  · dsimp only
    rw [if_pos hidx, if_pos hidx]

end RalinkSdk.BlockAck
