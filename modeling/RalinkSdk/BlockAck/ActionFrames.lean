import RalinkSdk.BlockAck.SessionInv

/-!
# Block-ack action frames (`common/ba_action.c`, `common/cmm_sanity.c`)

The three frames of a peer that change its sessions: ADDBA request, ADDBA response and DELBA.  The
TID of a frame has four bits; the station arrays have `NUM_OF_TID` entries.

## Conventions

- `Checked` has the session functions that the frames reach, with a check at each access to
  `BARecWcidArray`, `BAOriWcidArray` and the bitmaps of a station: `none` is an index that does not
  exist.  Inside the arrays they are the functions of `RalinkSdk.BlockAck.Session`.
- `MsgLen` is the length of the message.  The frames that are sent are not modelled.
-/

namespace RalinkSdk.BlockAck

open Lib

/-! ## Frames (`include/mlme.h`) -/

structure MlmeQueueElem where
  wcid : Nat
  msg : List (BitVec 8)

/-- A little-endian `USHORT` of a message. -/
def ushortAt (msg : List (BitVec 8)) (i : Nat) : BitVec 16 := msg.getD (i + 1) 0 ++ msg.getD i 0

structure BaParm where
  baPolicy : Bool
  tid : Nat
  bufSize : Nat

def baParm (x : BitVec 16) : BaParm where
  baPolicy := x.getLsbD 1
  tid := (x.extractLsb' 2 4).toNat
  bufSize := (x.extractLsb' 6 10).toNat

structure DelbaParm where
  initiator : Bool
  tid : Nat

def delbaParm (x : BitVec 16) : DelbaParm where
  initiator := x.getLsbD 11
  tid := (x.extractLsb' 12 4).toNat

def addbaReqParm (msg : List (BitVec 8)) : BaParm := baParm (ushortAt msg 27)

def addbaRspStatusCode (msg : List (BitVec 8)) : BitVec 16 := ushortAt msg 27

def addbaRspParm (msg : List (BitVec 8)) : BaParm := baParm (ushortAt msg 29)

def addbaRspTimeOutValue (msg : List (BitVec 8)) : Nat := (ushortAt msg 31).toNat

def delbaReqParm (msg : List (BitVec 8)) : DelbaParm := delbaParm (ushortAt msg 26)

def sizeofFrameAddba : Nat := 33

def sizeofFrameDelbaReq : Nat := 30

/-- `PeerAddBAReqActionSanity`: `IMMED_BA` is 1. -/
def peerAddBAReqActionSanity (msg : List (BitVec 8)) : Bool :=
  decide (sizeofFrameAddba ≤ msg.length) && (addbaReqParm msg).baPolicy

def peerAddBARspActionSanity (msg : List (BitVec 8)) : Bool :=
  decide (sizeofFrameAddba ≤ msg.length) && (addbaRspParm msg).baPolicy

def peerDelBAActionSanity (wcid : Nat) (msg : List (BitVec 8)) : Bool :=
  decide (msg.length = sizeofFrameDelbaReq) && decide (wcid < maxLenOfMacTable)

/-! ## Checked accesses -/

def inArray (tid : Nat) : Option Nat := if tid < numOfTid then some tid else none

namespace Checked

def baTableFreeRecEntry (a : Adapter) (idx : Nat) : Option Adapter :=
  if idx = 0 ∨ maxLenOfBaRecTable ≤ idx then some a
  else
    let e := a.baRecEntry idx
    if e.recBaStatus ≠ .none then do
      let tid ← inArray e.tid
      let a := a.setRecIdx e.wcid tid 0
      some ((a.setRec idx { e with recBaStatus := .none }).setNumRec (ulongPred a.numAsRecipient))
    else some a

def baTableFreeOriEntry (a : Adapter) (idx : Nat) : Option Adapter :=
  if idx = 0 ∨ maxLenOfBaOriTable ≤ idx then some a
  else
    let e := a.baOriEntry idx
    if e.oriBaStatus ≠ .none then do
      let tid ← inArray e.tid
      let a := a.setOriIdx e.wcid tid 0
      let a ← if e.oriBaStatus = .done then do
          let bit ← inArray e.tid
          some ((a.setTxBitmap e.wcid ((a.macTab e.wcid).txBaBitmap &&& ~~~ tidBit bit)).setNumDone
            (ulongPred a.numDoneOriginator))
        else some a
      some ((a.setOri idx { e with oriBaStatus := .none, token := 0 }).setNumOri
        (ulongPred a.numAsOriginator))
    else some a

def baOriSessionAdd (a : Adapter) (wcid tid bufSize timeOut : Nat) : Option Adapter := do
  let tid ← inArray tid
  let idx := (a.macTab wcid).baOriWcidArray tid
  let e := a.baOriEntry idx
  if idx ≠ 0 ∧ e.tid = tid ∧ e.oriBaStatus = .waitRes then
    let maxPeerBufSize := bufSize % 256 - 1
    let winSize := baMaxWinSizeReasign a (a.macTab wcid) (min e.baWinSize maxPeerBufSize)
    let a := (a.setOri idx { e with
      baWinSize := winSize
      timeOutValue := timeOut
      oriBaStatus := .done
      sequence := (a.macTab wcid).txSeq tid }).setNumDone (a.numDoneOriginator + 1)
    let bit ← inArray tid
    some (a.setTxBitmap wcid ((a.macTab wcid).txBaBitmap ||| tidBit bit))
  else some a

/-- `BAOriSessionTearDown` for a frame of the peer: `bPassive` is TRUE and `bForceSend` FALSE. -/
def baOriSessionTearDown (a : Adapter) (wcid tid : Nat) : Option Adapter :=
  if maxLenOfMacTable ≤ wcid then some a
  else do
    let tid ← inArray tid
    let idx := (a.macTab wcid).baOriWcidArray tid
    if idx = 0 ∨ maxLenOfBaOriTable ≤ idx then some a
    else baTableFreeOriEntry a idx

def baRecSessionAdd (a : Adapter) (declineBitmap : BitVec 16) (wcid tid bufSize : Nat) :
    Option (Bool × Adapter × BitVec 16) := do
  let tid ← inArray tid
  let idx := (a.macTab wcid).baRecWcidArray tid
  let r := if idx = 0 then baTableAllocRecEntry a idx
    else (some idx, idx, a.onRec idx baRefreshReorderingMpdus)
  match r with
  | (none, _, a) => some (false, a, declineBitmap)
  | (some i, idx, a) => do
    let a := a.setRec i (recEntryFill (a.baRecEntry i) (a.macTab wcid).aid tid
      (recBaWinSize bufSize a.rxBaWinLimit))
    let bit ← inArray tid
    let a := a.setRxBitmap wcid ((a.macTab wcid).rxBaBitmap ||| tidBit bit)
    let tid ← inArray tid
    let a := a.setRecIdx wcid tid idx
    let bit ← inArray tid
    some (true, a, declineBitmap &&& ~~~ tidBit bit)

/-- `BARecSessionTearDown` for a frame of the peer: `bPassive` is TRUE. -/
def baRecSessionTearDown (a : Adapter) (wcid tid : Nat) : Option Adapter :=
  if maxLenOfMacTable ≤ wcid then some a
  else do
    let tid ← inArray tid
    let idx := (a.macTab wcid).baRecWcidArray tid
    if idx = 0 then some a
    else
      let e := a.baRecEntry idx
      if tid = e.tid ∧ e.recBaStatus = .accept then
        let a := a.onRec idx baRefreshReorderingMpdus
        let a := a.setRec idx { a.baRecEntry idx with lastIndSeq := resetRcvSeq, baWinSize := 0 }
        let bit ← inArray e.tid
        let a := a.setRxBitmap wcid ((a.macTab wcid).rxBaBitmap &&& ~~~ tidBit bit)
        let tid ← inArray tid
        baTableFreeRecEntry (a.setRecIdx wcid tid 0) idx
      else baTableFreeRecEntry a idx

end Checked

/-! ## The handlers -/

/-- The sessions and what the handlers read beside them: `BADeclineBitmap` of each station,
    `CommonCfg.bBADecline`, `IS_HT_STA`, and whether this is a station in the TGn test
    (`STA_TGN_WIFI_ON`). -/
structure ActionState where
  adapter : Adapter
  baDeclineBitmap : Nat → BitVec 16
  bBADecline : Bool
  isHtSta : Nat → Bool
  tgnWifiOn : Bool

/-- The sessions change. -/
def ActionState.setAdapter (s : ActionState) (a : Adapter) : ActionState := { s with adapter := a }

/-- `MacTab.Content[wcid].BADeclineBitmap = bitmap` -/
def ActionState.setDecline (s : ActionState) (wcid : Nat) (bitmap : BitVec 16) : ActionState :=
  { s with baDeclineBitmap := Function.update s.baDeclineBitmap wcid bitmap }

/-- `PeerAddBAReqAction`, up to the response. -/
def peerAddBAReqAction (s : ActionState) (elem : MlmeQueueElem) : Option ActionState :=
  if maxLenOfMacTable ≤ elem.wcid then some s
  else if peerAddBAReqActionSanity elem.msg then
    if s.bBADecline = false ∧ s.isHtSta elem.wcid then do
      let parm := addbaReqParm elem.msg
      let r ← Checked.baRecSessionAdd s.adapter (s.baDeclineBitmap elem.wcid) elem.wcid parm.tid
        parm.bufSize
      some ((s.setAdapter r.2.1).setDecline elem.wcid r.2.2)
    else some s
  else some s

/-- Status 37 declines, and in the TGn test any error. -/
def declines (s : ActionState) (status : BitVec 16) : Prop :=
  status = 37 ∨ s.tgnWifiOn = true ∧ status ≠ 0

instance (s : ActionState) (status : BitVec 16) : Decidable (declines s status) :=
  inferInstanceAs (Decidable (_ ∨ _))

def Checked.addbaRspSwitch (a : Adapter) (elem : MlmeQueueElem) : Option Adapter :=
  let parm := addbaRspParm elem.msg
  if addbaRspStatusCode elem.msg = 0 then
    Checked.baOriSessionAdd a elem.wcid parm.tid parm.bufSize (addbaRspTimeOutValue elem.msg)
  else Checked.baOriSessionTearDown a elem.wcid parm.tid

def peerAddBARspAction (s : ActionState) (elem : MlmeQueueElem) : Option ActionState :=
  if maxLenOfMacTable ≤ elem.wcid then some s
  else if peerAddBARspActionSanity elem.msg then do
    let a ← Checked.addbaRspSwitch s.adapter elem
    if declines s (addbaRspStatusCode elem.msg) then do
      let bit ← inArray (addbaRspParm elem.msg).tid
      some ((s.setAdapter a).setDecline elem.wcid (s.baDeclineBitmap elem.wcid ||| tidBit bit))
    else some (s.setAdapter a)
  else some s

/-- The branches of `PeerDelBAAction`: `ORIGINATOR` is 1. -/
def Checked.delbaBranch (a : Adapter) (elem : MlmeQueueElem) : Option Adapter :=
  let parm := delbaReqParm elem.msg
  if parm.initiator then Checked.baRecSessionTearDown a elem.wcid parm.tid
  else Checked.baOriSessionTearDown a elem.wcid parm.tid

def peerDelBAAction (s : ActionState) (elem : MlmeQueueElem) : Option ActionState :=
  if peerDelBAActionSanity elem.wcid elem.msg then do
    let a ← Checked.delbaBranch s.adapter elem
    some (s.setAdapter a)
  else some s

/-! ## Accesses inside the arrays -/

/-- `o` returns `x` if `p` holds, and fails if it does not. -/
def Guarded {α : Type} (p : Prop) (o : Option α) (x : α) : Prop :=
  (p → o = some x) ∧ (¬p → o = none)

section

variable {α β : Type} {p q : Prop} {o : Option α} {x : α} {y : β}

theorem Guarded.of_true (hp : p) (h : o = some x) : Guarded p o x :=
  ⟨fun _ => h, fun hnot => absurd hp hnot⟩

theorem Guarded.congr (h : Guarded p o x) (hpq : q ↔ p) : Guarded q o x :=
  ⟨fun hq => h.1 (hpq.mp hq), fun hq => h.2 fun hp => hq (hpq.mpr hp)⟩

theorem Guarded.bind {f : α → Option β} (h : Guarded p o x) (hf : p → Guarded q (f x) y) :
    Guarded (p ∧ q) (o >>= f) y := by
  by_cases hp : p
  · rw [h.1 hp]
    exact (hf hp).congr (and_iff_right hp)
  · rw [h.2 hp]
    exact ⟨fun hpq => absurd hpq.1 hp, fun _ => rfl⟩

theorem Guarded.isSome_iff (h : Guarded p o x) : o.isSome ↔ p := by
  by_cases hp : p
  · rw [h.1 hp]
    exact iff_of_true rfl hp
  · rw [h.2 hp]
    exact iff_of_false Bool.false_ne_true hp

end

theorem inArray_guarded (tid : Nat) : Guarded (tid < numOfTid) (inArray tid) tid :=
  ⟨fun h => if_pos h, fun h => if_neg h⟩

/-- The recipient slot has a TID inside the arrays, if freeing it looks at the TID. -/
def Adapter.RecSlotInArray (a : Adapter) (idx : Nat) : Prop :=
  idx ≠ 0 → idx < maxLenOfBaRecTable → (a.baRecEntry idx).recBaStatus ≠ .none →
    (a.baRecEntry idx).tid < numOfTid

def Adapter.OriSlotInArray (a : Adapter) (idx : Nat) : Prop :=
  idx ≠ 0 → idx < maxLenOfBaOriTable → (a.baOriEntry idx).oriBaStatus ≠ .none →
    (a.baOriEntry idx).tid < numOfTid

section

variable (a : Adapter) (wcid tid idx bufSize timeOut : Nat)

theorem freeRecEntry_guarded : Guarded (a.RecSlotInArray idx) (Checked.baTableFreeRecEntry a idx)
      (baTableFreeRecEntry a idx) := by
  unfold Checked.baTableFreeRecEntry baTableFreeRecEntry
  by_cases hidx : idx = 0 ∨ maxLenOfBaRecTable ≤ idx
  · rw [if_pos hidx, if_pos hidx]
    exact .of_true (fun h0 hlt => absurd hidx (by omega)) rfl
  rw [if_neg hidx, if_neg hidx]
  by_cases hnone : (a.baRecEntry idx).recBaStatus ≠ .none
  · simp only [if_pos hnone]
    refine ((inArray_guarded (a.baRecEntry idx).tid).bind fun _ => .of_true trivial ?_).congr
      ?_
    · rfl
    · constructor
      · intro h
        exact ⟨h (by omega) (by omega) hnone, trivial⟩
      · intro h _ _ _
        exact h.1
  · simp only [if_neg hnone]
    exact .of_true (fun _ _ h => absurd h hnone) rfl

theorem freeOriEntry_guarded : Guarded (a.OriSlotInArray idx) (Checked.baTableFreeOriEntry a idx)
      (baTableFreeOriEntry a idx) := by
  unfold Checked.baTableFreeOriEntry baTableFreeOriEntry
  by_cases hidx : idx = 0 ∨ maxLenOfBaOriTable ≤ idx
  · rw [if_pos hidx, if_pos hidx]
    exact .of_true (fun h0 hlt => absurd hidx (by omega)) rfl
  rw [if_neg hidx, if_neg hidx]
  by_cases hnone : (a.baOriEntry idx).oriBaStatus ≠ .none
  · simp only [if_pos hnone]
    refine ((inArray_guarded (a.baOriEntry idx).tid).bind fun htid => ?_).congr
      (p := (a.baOriEntry idx).tid < numOfTid ∧ True) ?_
    · -- the second access, to `TXBAbitmap`, is at the same index
      refine .of_true trivial ?_
      rw [(inArray_guarded _).1 htid]
      split <;> rfl
    · constructor
      · intro h
        exact ⟨h (by omega) (by omega) hnone, trivial⟩
      · intro h _ _ _
        exact h.1
  · simp only [if_neg hnone]
    exact .of_true (fun _ _ h => absurd h hnone) rfl

theorem oriSessionAdd_guarded :
    Guarded (tid < numOfTid) (Checked.baOriSessionAdd a wcid tid bufSize timeOut)
      (baOriSessionAdd a wcid tid bufSize timeOut) := by
  unfold Checked.baOriSessionAdd baOriSessionAdd
  refine ((inArray_guarded tid).bind fun htid => .of_true trivial ?_).congr
    (and_iff_left trivial).symm
  rw [(inArray_guarded tid).1 htid]
  dsimp only
  split <;> rfl

theorem oriSessionTearDown_guarded (allocOk : Bool) : Guarded (wcid < maxLenOfMacTable →
        tid < numOfTid ∧ a.OriSlotInArray ((a.macTab wcid).baOriWcidArray tid))
      (Checked.baOriSessionTearDown a wcid tid) (baOriSessionTearDown a wcid tid true allocOk) := by
  unfold Checked.baOriSessionTearDown baOriSessionTearDown
  by_cases hwcid : maxLenOfMacTable ≤ wcid
  · rw [if_pos hwcid, if_pos hwcid]
    exact .of_true (fun h => absurd h (Nat.not_lt.mpr hwcid)) rfl
  rw [if_neg hwcid, if_neg hwcid]
  refine ((inArray_guarded tid).bind fun _ => ?_).congr (imp_iff_right (Nat.not_le.mp hwcid))
  by_cases hidx : (a.macTab wcid).baOriWcidArray tid = 0 ∨
      maxLenOfBaOriTable ≤ (a.macTab wcid).baOriWcidArray tid
  · simp only [if_pos hidx]
    exact .of_true (fun h0 hlt => absurd hidx (by omega)) rfl
  · simp only [if_neg hidx, Bool.true_eq_false, false_and, if_false]
    exact freeOriEntry_guarded a _

theorem recSessionAdd_guarded (declineBitmap : BitVec 16) :
    Guarded (tid < numOfTid) (Checked.baRecSessionAdd a declineBitmap wcid tid bufSize)
      ((baRecSessionAdd a wcid tid bufSize).1, (baRecSessionAdd a wcid tid bufSize).2,
        bif (baRecSessionAdd a wcid tid bufSize).1 then declineBitmap &&& ~~~ tidBit tid
        else declineBitmap) := by
  unfold Checked.baRecSessionAdd baRecSessionAdd
  refine ((inArray_guarded tid).bind fun htid => .of_true trivial ?_).congr
    (and_iff_left trivial).symm
  have hinside := (inArray_guarded tid).1 htid
  dsimp only
  -- the allocation succeeds or not
  generalize (if (a.macTab wcid).baRecWcidArray tid = 0 then
    baTableAllocRecEntry a ((a.macTab wcid).baRecWcidArray tid)
    else (some ((a.macTab wcid).baRecWcidArray tid), (a.macTab wcid).baRecWcidArray tid,
      a.onRec ((a.macTab wcid).baRecWcidArray tid) baRefreshReorderingMpdus)) = slot
  obtain ⟨_ | i, idx, b⟩ := slot
  · rfl
  · simp only [hinside, Option.bind_eq_bind, Option.bind_some]
    rfl

theorem recSessionTearDown_guarded (allocOk : Bool) : Guarded (wcid < maxLenOfMacTable →
        tid < numOfTid ∧ a.RecSlotInArray ((a.macTab wcid).baRecWcidArray tid))
      (Checked.baRecSessionTearDown a wcid tid) (baRecSessionTearDown a wcid tid true allocOk) := by
  unfold Checked.baRecSessionTearDown baRecSessionTearDown
  by_cases hwcid : maxLenOfMacTable ≤ wcid
  · rw [if_pos hwcid, if_pos hwcid]
    exact .of_true (fun h => absurd h (Nat.not_lt.mpr hwcid)) rfl
  rw [if_neg hwcid, if_neg hwcid]
  refine ((inArray_guarded tid).bind fun htid => ?_).congr (imp_iff_right (Nat.not_le.mp hwcid))
  by_cases hidx : (a.macTab wcid).baRecWcidArray tid = 0
  · simp only [if_pos hidx]
    exact .of_true (fun h0 => absurd hidx h0) rfl
  simp only [if_neg hidx]
  by_cases hsession : tid = (a.baRecEntry ((a.macTab wcid).baRecWcidArray tid)).tid ∧
      (a.baRecEntry ((a.macTab wcid).baRecWcidArray tid)).recBaStatus = .accept
  · simp only [if_pos hsession, Bool.true_eq_false, false_and, if_false]
    have hslot : (a.baRecEntry ((a.macTab wcid).baRecWcidArray tid)).tid < numOfTid :=
      hsession.1 ▸ htid
    -- reordering leaves the TID of the session alone
    have hsame := (refresh_sameSession (a.rx ((a.macTab wcid).baRecWcidArray tid))).2.1
    refine .of_true (fun _ _ _ => hslot) ?_
    rw [(inArray_guarded _).1 hslot, (inArray_guarded tid).1 htid]
    refine (freeRecEntry_guarded _ _).1 fun _ _ _ => ?_
    simp only [Adapter.setRecIdx, Adapter.setRxBitmap, Adapter.setMac, Adapter.setRec,
      Adapter.onRec, Function.update_self, hsame]
    exact hslot
  · simp only [if_neg hsession]
    exact freeRecEntry_guarded a _

end

/-! ## Handling a frame -/

inductive BaFrame where
  | addbaReq (elem : MlmeQueueElem)
  | addbaRsp (elem : MlmeQueueElem)
  | delba (elem : MlmeQueueElem)

def ActionState.handle (s : ActionState) : BaFrame → Option ActionState
  | .addbaReq elem => peerAddBAReqAction s elem
  | .addbaRsp elem => peerAddBARspAction s elem
  | .delba elem => peerDelBAAction s elem

def BaFrame.tid : BaFrame → Nat
  | .addbaReq elem => (addbaReqParm elem.msg).tid
  | .addbaRsp elem => (addbaRspParm elem.msg).tid
  | .delba elem => (delbaReqParm elem.msg).tid

/-- The frame passes its sanity check and, if it is a request, is not declined. -/
def ActionState.passes (s : ActionState) : BaFrame → Bool
  | .addbaReq elem => decide (elem.wcid < maxLenOfMacTable) && peerAddBAReqActionSanity elem.msg &&
      !s.bBADecline && s.isHtSta elem.wcid
  | .addbaRsp elem => decide (elem.wcid < maxLenOfMacTable) && peerAddBARspActionSanity elem.msg
  | .delba elem => peerDelBAActionSanity elem.wcid elem.msg

def ActionState.TearsDownInArray (s : ActionState) : BaFrame → Prop
  | .addbaReq _ => True
  | .addbaRsp elem => addbaRspStatusCode elem.msg ≠ 0 →
      s.adapter.OriSlotInArray
        ((s.adapter.macTab elem.wcid).baOriWcidArray (addbaRspParm elem.msg).tid)
  | .delba elem =>
      if (delbaReqParm elem.msg).initiator then
        s.adapter.RecSlotInArray
          ((s.adapter.macTab elem.wcid).baRecWcidArray (delbaReqParm elem.msg).tid)
      else
        s.adapter.OriSlotInArray
          ((s.adapter.macTab elem.wcid).baOriWcidArray (delbaReqParm elem.msg).tid)

/-- The switch of `PeerAddBARspAction`, inside the arrays. -/
def addbaRspSwitch (a : Adapter) (elem : MlmeQueueElem) : Adapter :=
  let parm := addbaRspParm elem.msg
  if addbaRspStatusCode elem.msg = 0 then
    baOriSessionAdd a elem.wcid parm.tid parm.bufSize (addbaRspTimeOutValue elem.msg)
  else baOriSessionTearDown a elem.wcid parm.tid true true

/-- The branches of `PeerDelBAAction`, inside the arrays. -/
def delbaBranch (a : Adapter) (elem : MlmeQueueElem) : Adapter :=
  let parm := delbaReqParm elem.msg
  if parm.initiator then baRecSessionTearDown a elem.wcid parm.tid true true
  else baOriSessionTearDown a elem.wcid parm.tid true true

/-- What a frame that passes does inside the arrays. -/
def ActionState.effect (s : ActionState) : BaFrame → ActionState
  | .addbaReq elem =>
    let parm := addbaReqParm elem.msg
    let r := baRecSessionAdd s.adapter elem.wcid parm.tid parm.bufSize
    (s.setAdapter r.2).setDecline elem.wcid
      (bif r.1 then s.baDeclineBitmap elem.wcid &&& ~~~ tidBit parm.tid
      else s.baDeclineBitmap elem.wcid)
  | .addbaRsp elem =>
    let a := addbaRspSwitch s.adapter elem
    if declines s (addbaRspStatusCode elem.msg) then
      (s.setAdapter a).setDecline elem.wcid
        (s.baDeclineBitmap elem.wcid ||| tidBit (addbaRspParm elem.msg).tid)
    else s.setAdapter a
  | .delba elem => s.setAdapter (delbaBranch s.adapter elem)

section

variable (s : ActionState) (elem : MlmeQueueElem)

theorem addbaRspSwitch_guarded (hwcid : elem.wcid < maxLenOfMacTable) :
    Guarded ((addbaRspParm elem.msg).tid < numOfTid ∧ s.TearsDownInArray (.addbaRsp elem))
      (Checked.addbaRspSwitch s.adapter elem) (addbaRspSwitch s.adapter elem) := by
  rw [Checked.addbaRspSwitch, addbaRspSwitch]
  by_cases hstatus : addbaRspStatusCode elem.msg = 0
  · simp only [if_pos hstatus]
    exact (oriSessionAdd_guarded _ _ _ _ _).congr (and_iff_left fun hne => absurd hstatus hne)
  · simp only [if_neg hstatus]
    refine (oriSessionTearDown_guarded _ _ _ true).congr ?_
    rw [imp_iff_right hwcid]
    exact and_congr_right fun _ => imp_iff_right hstatus

theorem delbaBranch_guarded (hwcid : elem.wcid < maxLenOfMacTable) :
    Guarded ((delbaReqParm elem.msg).tid < numOfTid ∧ s.TearsDownInArray (.delba elem))
      (Checked.delbaBranch s.adapter elem) (delbaBranch s.adapter elem) := by
  rw [Checked.delbaBranch, delbaBranch, ActionState.TearsDownInArray]
  by_cases hinitiator : (delbaReqParm elem.msg).initiator
  · simp only [if_pos hinitiator]
    exact (recSessionTearDown_guarded _ _ _ true).congr (imp_iff_right hwcid).symm
  · simp only [if_neg hinitiator]
    exact (oriSessionTearDown_guarded _ _ _ true).congr (imp_iff_right hwcid).symm

/-- **A frame that passes** is handled inside the arrays if its TID is there, and that of the session
    it tears down; it then does what the session functions do. -/
theorem handle_guarded {f : BaFrame} (h : s.passes f) :
    Guarded (f.tid < numOfTid ∧ s.TearsDownInArray f) (s.handle f) (s.effect f) := by
  cases f with
  | addbaReq elem =>
    simp only [ActionState.passes, Bool.and_eq_true, decide_eq_true_eq] at h
    obtain ⟨⟨⟨hwcid, hsanity⟩, hdecline⟩, hht⟩ := h
    rw [ActionState.handle, peerAddBAReqAction, if_neg (Nat.not_le.mpr hwcid), if_pos hsanity,
      if_pos ⟨by simpa using hdecline, hht⟩]
    refine ((recSessionAdd_guarded s.adapter elem.wcid (addbaReqParm elem.msg).tid
      (addbaReqParm elem.msg).bufSize (s.baDeclineBitmap elem.wcid)).bind
        fun _ => .of_true trivial ?_).congr Iff.rfl
    rfl
  | addbaRsp elem =>
    simp only [ActionState.passes, Bool.and_eq_true, decide_eq_true_eq] at h
    obtain ⟨hwcid, hsanity⟩ := h
    rw [ActionState.handle, peerAddBARspAction, if_neg (Nat.not_le.mpr hwcid), if_pos hsanity]
    refine ((addbaRspSwitch_guarded s elem hwcid).bind
      fun hinside => .of_true trivial ?_).congr (and_iff_left trivial).symm
    rw [(inArray_guarded _).1 hinside.1, ActionState.effect]
    by_cases hdecline : declines s (addbaRspStatusCode elem.msg)
    · simp only [if_pos hdecline]
      rfl
    · simp only [if_neg hdecline]
  | delba elem =>
    have hpasses : peerDelBAActionSanity elem.wcid elem.msg := h
    have hwcid := of_decide_eq_true (Bool.and_eq_true_iff.mp hpasses).2
    rw [ActionState.handle, peerDelBAAction, if_pos hpasses]
    refine ((delbaBranch_guarded s elem hwcid).bind fun _ => .of_true trivial ?_).congr
      (and_iff_left trivial).symm
    rfl

theorem handle_not_passes {f : BaFrame} (h : ¬s.passes f) : s.handle f = some s := by
  cases f with
  | addbaReq elem =>
    rw [ActionState.handle, peerAddBAReqAction]
    by_cases hwcid : maxLenOfMacTable ≤ elem.wcid
    · rw [if_pos hwcid]
    rw [if_neg hwcid]
    by_cases hsanity : peerAddBAReqActionSanity elem.msg
    · rw [if_pos hsanity]
      refine if_neg fun hdecline => h ?_
      simp [ActionState.passes, Nat.not_le.mp hwcid, hsanity, hdecline.1, hdecline.2]
    · rw [if_neg hsanity]
  | addbaRsp elem =>
    rw [ActionState.handle, peerAddBARspAction]
    by_cases hwcid : maxLenOfMacTable ≤ elem.wcid
    · rw [if_pos hwcid]
    rw [if_neg hwcid]
    refine if_neg fun hsanity => h ?_
    simp [ActionState.passes, Nat.not_le.mp hwcid, hsanity]
  | delba elem =>
    rw [ActionState.handle, peerDelBAAction]
    exact if_neg h

end

/-- **Block-ack frames**: for every frame and every state of the sessions, the frame is handled
    inside the station arrays and bitmaps if and only if it does not get there, or its TID is below
    `NUM_OF_TID` and so is that of the session it tears down. -/
theorem peerBaAction_inside_iff (s : ActionState) (f : BaFrame) :
    (s.handle f).isSome ↔ (s.passes f → f.tid < numOfTid ∧ s.TearsDownInArray f) := by
  by_cases hpasses : s.passes f
  · rw [imp_iff_right hpasses]
    exact (handle_guarded s hpasses).isSome_iff
  · rw [handle_not_passes s hpasses]
    exact iff_of_true rfl fun h => absurd h hpasses

/-- A request for TID 8, a refusal for TID 15 and a DELBA for TID 8, each of which passes. -/
theorem peerBaAction_tid_behind :
    ((ActionState.mk newAdapter (fun _ => 0) false (fun _ => true) false).handle
        (.addbaReq ⟨1, List.replicate 27 0 ++ [0x22, 0, 0, 0, 0, 0]⟩)).isSome = false ∧
      ((ActionState.mk newAdapter (fun _ => 0) false (fun _ => true) false).handle
        (.addbaRsp ⟨1, List.replicate 27 0 ++ [37, 0, 0x3E, 0, 0, 0]⟩)).isSome = false ∧
      ((ActionState.mk newAdapter (fun _ => 0) false (fun _ => true) false).handle
        (.delba ⟨1, List.replicate 27 0 ++ [0x80, 0, 0]⟩)).isSome = false := by
  decide

/-! ## Runs -/

theorem Adapter.Consistent.recSlotInArray {a : Adapter} (h : a.Consistent) (idx : Nat) :
    a.RecSlotInArray idx := by
  intro _ hlt hused
  have hkey : a.recTable.used idx = some ((a.baRecEntry idx).wcid, (a.baRecEntry idx).tid) :=
    if_neg hused
  exact (h.rec_ok.keys idx _ hlt hkey).2

theorem Adapter.Consistent.oriSlotInArray {a : Adapter} (h : a.Consistent) (idx : Nat) :
    a.OriSlotInArray idx := by
  intro _ hlt hused
  have hkey : a.oriTable.used idx = some ((a.baOriEntry idx).wcid, (a.baOriEntry idx).tid) :=
    if_neg hused
  exact (h.ori_ok.keys idx _ hlt hkey).2

theorem Adapter.Consistent.tearsDownInArray {s : ActionState} (h : s.adapter.Consistent)
    (f : BaFrame) : s.TearsDownInArray f := by
  cases f with
  | addbaReq elem => trivial
  | addbaRsp elem => exact fun _ => h.oriSlotInArray _
  | delba elem =>
    rw [ActionState.TearsDownInArray]
    split
    · exact h.recSlotInArray _
    · exact h.oriSlotInArray _

theorem Adapter.Consistent.effect {s : ActionState} (h : s.adapter.Consistent) {f : BaFrame}
    (hpasses : s.passes f) (htid : f.tid < numOfTid) : (s.effect f).adapter.Consistent := by
  cases f with
  | addbaReq elem =>
    simp only [ActionState.passes, Bool.and_eq_true, decide_eq_true_eq] at hpasses
    exact h.recAdd ⟨hpasses.1.1.1, htid⟩ _
  | addbaRsp elem =>
    simp only [ActionState.passes, Bool.and_eq_true, decide_eq_true_eq] at hpasses
    have hsessions : (addbaRspSwitch s.adapter elem).Consistent := by
      rw [addbaRspSwitch]
      split
      · exact h.oriAdd ⟨hpasses.1, htid⟩ _ _
      · exact h.oriTearDown _ _ _ _
    rw [ActionState.effect]
    split
    · exact hsessions
    · exact hsessions
  | delba elem =>
    rw [ActionState.effect]
    change (delbaBranch s.adapter elem).Consistent
    rw [delbaBranch]
    split
    · exact h.recTearDown _ htid _ _
    · exact h.oriTearDown _ _ _ _

/-- A frame of a peer, or another event of the sessions. -/
abbrev ActionEvent := BaFrame ⊕ AdapterEvent

/-- The checked step. -/
def ActionState.handleEvent (s : ActionState) : ActionEvent → Option ActionState
  | .inl f => s.handle f
  | .inr e => some (s.setAdapter (s.adapter.step e))

/-- The step inside the arrays. -/
def ActionState.step (s : ActionState) : ActionEvent → ActionState
  | .inl f => if s.passes f then s.effect f else s
  | .inr e => s.setAdapter (s.adapter.step e)

/-- A frame that passes has a TID below `NUM_OF_TID`. -/
def ActionState.TidInArray (s : ActionState) : ActionEvent → Prop
  | .inl f => s.passes f → f.tid < numOfTid
  | .inr _ => True

theorem Adapter.Consistent.handleEvent {s : ActionState} (h : s.adapter.Consistent)
    (e : ActionEvent) : Guarded (s.TidInArray e) (s.handleEvent e) (s.step e) := by
  cases e with
  | inl f =>
    rw [ActionState.handleEvent, ActionState.step, ActionState.TidInArray]
    by_cases hpasses : s.passes f
    · rw [if_pos hpasses]
      refine (handle_guarded s hpasses).congr ?_
      rw [imp_iff_right hpasses]
      exact (and_iff_left (h.tearsDownInArray f)).symm
    · rw [if_neg hpasses]
      exact .of_true (fun hp => absurd hp hpasses) (handle_not_passes s hpasses)
  | inr e => exact .of_true trivial rfl

theorem Adapter.Consistent.actionStep {s : ActionState} (h : s.adapter.Consistent) {e : ActionEvent}
    (htid : s.TidInArray e) : (s.step e).adapter.Consistent := by
  cases e with
  | inl f =>
    rw [ActionState.step]
    split
    · rename_i hpasses
      exact h.effect hpasses (htid hpasses)
    · exact h
  | inr e => exact h.step e

/-- **Runs**: from consistent tables, the events of a run are all handled inside the arrays if and
    only if each frame that passes has a TID below `NUM_OF_TID`. -/
theorem peerBaActions_run {s : ActionState} (h : s.adapter.Consistent) (es : List ActionEvent) :
    Guarded (Along ActionState.step ActionState.TidInArray s es)
      (es.foldlM ActionState.handleEvent s) (runEvents ActionState.step s es) := by
  induction es generalizing s with
  | nil => exact .of_true trivial rfl
  | cons e es ih =>
    rw [List.foldlM_cons, along_cons, runEvents_cons]
    exact (h.handleEvent e).bind fun htid => ih (h.actionStep htid)

def newActionState : ActionState := ⟨newAdapter, fun _ => 0, false, fun _ => true, false⟩

/-- From the first frame on. -/
theorem peerBaActions_run_new : newActionState.adapter.Consistent ∧ ∀ es,
    Guarded (Along ActionState.step ActionState.TidInArray newActionState es)
      (es.foldlM ActionState.handleEvent newActionState)
      (runEvents ActionState.step newActionState es) := by
  have hnew : newActionState.adapter.Consistent := Adapter.Idle.consistent
    ⟨rfl, rfl, fun _ => rfl, fun _ => rfl, fun _ _ => rfl, fun _ _ => rfl⟩ fun _ _ => rfl
  exact ⟨hnew, peerBaActions_run hnew⟩

end RalinkSdk.BlockAck
