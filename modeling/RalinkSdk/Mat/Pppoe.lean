import RalinkSdk.Lib.Region
import RalinkSdk.Lib.Tlv
import RalinkSdk.Mat.SessionMapping

/-!
# The PPPoE discovery stage of the MAC translation

A station finds its access concentrator by discovery packets, whose payload is a list of tags.
Since all stations have one MAC address towards the network, the driver tells them by a tag: it
notes the tag that a packet carries, or puts one in that names the station, and takes this one out
of the answer.

A packet is the bytes from its first one to the end of its buffer, with the number of those that
belong to it.  A function returns `none` where the code leaves the buffer.

## Source

`common/cmm_mat_pppoe.c`, `include/os/rt_linux.h`, `include/mat.h`.
-/

namespace RalinkSdk.Mat

open IgmpSnoop (MacAddr FrameByte)
open Lib
open scoped IgmpSnoop

/-! ## Data -/

def pppoeCodePadi : FrameByte := 0x09

def pppoeCodePado : FrameByte := 0x07

def pppoeCodePadr : FrameByte := 0x19

def pppoeCodePads : FrameByte := 0x65

def pppoeCodePadt : FrameByte := 0xa7

def pppoeTagIdHostUniq : BitVec 16 := 0x0103

def pppoeTagIdAcCookie : BitVec 16 := 0x0104

def pppoeDisUidLen : Nat := 6

structure UidMacMappingEntry where
  isServer : Bool
  uIDAddByUs : Bool
  uIDStr : MacAddr
  macAddr : MacAddr
  deriving DecidableEq

abbrev UidMacTable := AgingTable UidMacMappingEntry

structure PppoeTables where
  uidMacTable : UidMacTable
  sesMacTable : SesMacTable

/-- A `struct sk_buff` whose bytes lie in one piece: `buf` goes from `data` to `end`, and `tail` is
    `data + len`. -/
structure Skb where
  buf : List FrameByte
  len : BitVec 32
  cloned : Bool
  deriving DecidableEq

/-- The readings of the clock during a call, and which allocations succeed. -/
structure PppoeCall where
  uidNow : Readings
  uidAlloc : Bool
  lookUpNow : BitVec 32
  sesNow : Readings
  sesAlloc : Bool
  sesLookUpNow : BitVec 32
  copyAlloc : Bool

/-! ## Bytes -/

/-- `OS_NTOHS(get_unaligned((PUINT16)p))` -/
def getNtohs (mem : List FrameByte) (p : Nat) : Option (BitVec 16) :=
  (fetch mem p 2).map fun b => b.getD 0 0 ++ b.getD 1 0

/-- The MAC address at a pointer. -/
def getMac (mem : List FrameByte) (p : Nat) : Option MacAddr :=
  (fetch mem p 6).map fun b i => b.getD i 0

/-- `memmove` inside a buffer. -/
def memmove (buf : List FrameByte) (dst src n : Nat) : Option (List FrameByte) := do
  let bytes ← fetch buf src n
  put buf dst bytes

/-! ## The tags -/

/-- The loop over the tags, with the last `tagLen`: where the content of the tag that is looked for
    begins, if it is found. -/
def tagLoop (mem : List FrameByte) (findTag : BitVec 16) :
    Nat → Nat → BitVec 16 → BitVec 16 → Option (Option Nat × BitVec 16)
  | 0, _, _, _ => none
  | fuel + 1, pData, leftLen, tagLen =>
    if leftLen = 0 then some (none, tagLen)
    else do
      let tagID ← getNtohs mem pData
      let tagLen ← getNtohs mem (pData + 2)
      if tagID = findTag ∧ 0 < tagLen then some (some (pData + 4), tagLen)
      else tagLoop mem findTag fuel (pData + (tagLen.toNat + 4)) (leftLen - (tagLen + 4)) tagLen

/-- The search for a tag in the packet whose PPPoE header begins at `pLayerHdr`.  Every turn reads
    four bytes further on, so that it never runs out of fuel. -/
def tagSearch (mem : List FrameByte) (pLayerHdr : Nat) (findTag payloadLen : BitVec 16) :
    Option (Option Nat × BitVec 16) :=
  tagLoop mem findTag (mem.length + 1) (pLayerHdr + 6) payloadLen 0

/-- The tag that `MATProto_PPPoEDis_Tx` looks for. -/
def txFindTag (code : FrameByte) : Option (BitVec 16) :=
  if code = pppoeCodePadi ∨ code = pppoeCodePadr then some pppoeTagIdHostUniq
  else if code = pppoeCodePado ∨ code = pppoeCodePads then some pppoeTagIdAcCookie
  else none

/-- The tag that `MATProto_PPPoEDis_Rx` looks for. -/
def rxFindTag (code : FrameByte) : Option (BitVec 16) :=
  if code = pppoeCodePado ∨ code = pppoeCodePads then some pppoeTagIdHostUniq
  else if code = pppoeCodePadr then some pppoeTagIdAcCookie
  else none

/-! ## The table of the stations -/

/-- The hash of the bytes that tell a station. -/
def uidHashIdx (uid : List FrameByte) : HashIdx :=
  Fin.ofNat matMaxHashEntrySupport (uid.foldl (· ^^^ ·) 0).toNat

/-- The first bytes of `uIDStr` are these. -/
def UidMacMappingEntry.hasUid (x : UidMacMappingEntry) (uid : List FrameByte) : Bool :=
  (List.ofFn x.uIDStr).take uid.length == uid

/-- What `UidMacTableUpdate` does with the entries of a chain. -/
def uidMacUpdate (uid : List FrameByte) (uIDAddByUs : Bool) (pInMac : MacAddr) (isServer : Bool) :
    AgingUpdate UidMacMappingEntry where
  ageout := matTbEntryAgeoutTime
  isEntry x := x.hasUid uid && x.macAddr == pInMac
  refresh x := { x with isServer := isServer, uIDAddByUs := uIDAddByUs }
  new := ⟨isServer, uIDAddByUs, fun i => uid.getD i 0, pInMac⟩

/-- `UidMacTableUpdate`; `tagInfo` is the content of the tag, if there is one. -/
def uidMacTableUpdate (t : UidMacTable) (pInMac pOutMac : MacAddr)
    (tagInfo : Option (List FrameByte)) (isServer : Bool) (now : Readings) (alloc : Bool) :
    UidMacTable × Option UidMacMappingEntry :=
  -- a server is told by the station that it answers
  let uid := tagInfo.getD (List.ofFn (if isServer then pOutMac else pInMac))
  let out := t.update (uidHashIdx uid) (uidMacUpdate uid tagInfo.isNone pInMac isServer) now alloc
  (out.1, out.2.1.map (·.entry))

def uidMacTableLookUp (t : UidMacTable) (uid : List FrameByte) (now : BitVec 32) :
    UidMacTable × Option UidMacMappingEntry :=
  t.lookUp (uidHashIdx uid) (·.hasUid uid) now

/-! ## Tx -/

def uidTag (x : UidMacMappingEntry) : Attr :=
  ⟨if x.isServer then pppoeTagIdAcCookie else pppoeTagIdHostUniq, List.ofFn x.uIDStr⟩

/-- Puts the tag of `x` at the end of the packet whose length field is at `offset`. -/
def insertTag (pModSkb : Skb) (offset : Nat) (payloadLen : BitVec 16) (x : UidMacMappingEntry) :
    Option Skb := do
  -- `OS_PKT_TAIL_BUF_EXTEND`
  let tail := pModSkb.len.toNat
  if pModSkb.buf.length < tail + (4 + pppoeDisUidLen) then none
  else do
    let pPPPPoETail := offset + payloadLen.toNat
    let tailHead := if pPPPPoETail < tail then pPPPPoETail else tail
    let buf ← put pModSkb.buf tailHead (uidTag x).encode
    let buf ← put buf offset (be16 (payloadLen + 4 + BitVec.ofNat 16 pppoeDisUidLen))
    some { pModSkb with buf := buf, len := pModSkb.len + BitVec.ofNat 32 (4 + pppoeDisUidLen) }

/-- The content of a tag that was found, of which the table keeps six bytes. -/
def tagContent (buf : List FrameByte) (found : Option Nat × BitVec 16) :
    Option (Option (List FrameByte)) :=
  match found.1 with
  | none => some none
  | some pTagContent => (fetch buf pTagContent (min found.2.toNat pppoeDisUidLen)).map some

/-- `MATProto_PPPoEDis_Tx`: the tables, the packet that was passed, and the one returned, or
    null. -/
def matProtoPPPoEDisTx (t : PppoeTables) (pSkb : Skb) (pLayerHdr : Nat) (c : PppoeCall) :
    Option (PppoeTables × Skb × Option Skb) := do
  let pDstMac ← getMac pSkb.buf 0
  let pSrcMac ← getMac pSkb.buf 6
  let verType ← pSkb.buf[pLayerHdr]?
  if verType ≠ 0x11 then some (t, pSkb, none)
  else do
    let code ← pSkb.buf[pLayerHdr + 1]?
    match txFindTag code with
    | none => some (t, pSkb, none)
    | some findTag => do
      let isServer := decide (findTag = pppoeTagIdAcCookie)
      let sesID ← getNtohs pSkb.buf (pLayerHdr + 2)
      let payloadLen ← getNtohs pSkb.buf (pLayerHdr + 4)
      let offset := (pLayerHdr + 4) % 2 ^ 16
      let found ← tagSearch pSkb.buf pLayerHdr findTag payloadLen
      let tagInfo ← tagContent pSkb.buf found
      let out := uidMacTableUpdate t.uidMacTable pSrcMac pDstMac tagInfo isServer c.uidNow
        c.uidAlloc
      let t := { t with uidMacTable := out.1 }
      let done : PppoeTables :=
        if code = pppoeCodePads then
          { t with sesMacTable :=
              (sesMacTableUpdate t.sesMacTable pSrcMac sesID pDstMac c.sesNow c.sesAlloc).1 }
        else t
      match out.2, tagInfo with
      | some x, none =>
        if pSkb.cloned then
          -- `OS_PKT_COPY`
          if c.copyAlloc then do
            let pModSkb ← insertTag { pSkb with cloned := false } offset payloadLen x
            some (done, pSkb, some pModSkb)
          else some (t, pSkb, none)
        else do
          let pModSkb ← insertTag pSkb offset payloadLen x
          some (done, pModSkb, some pModSkb)
      | _, _ => some (done, pSkb, none)

/-! ## Rx -/

/-- Takes the tag out whose content of `tagLen` bytes begins at `pTagContent`. -/
def removeTag (pSkb : Skb) (pPayloadLen : Nat) (payloadLen : BitVec 16) (pTagContent : Nat)
    (tagLen : Nat) : Option Skb := do
  let removedTagLen := 4 + tagLen
  let tagHead := pTagContent - 4
  let tailLen := pSkb.len - BitVec.ofNat 32 pTagContent - BitVec.ofNat 32 removedTagLen
  let buf ← (if tailLen = 0 then some pSkb.buf
    else memmove pSkb.buf tagHead (pTagContent + tagLen) tailLen.toNat)
  -- `OS_PKT_TAIL_ADJUST`
  let buf ← put buf pPayloadLen (be16 (payloadLen - BitVec.ofNat 16 removedTagLen))
  some { pSkb with buf := buf, len := pSkb.len - BitVec.ofNat 32 removedTagLen }

/-- `MATProto_PPPoEDis_Rx`: the tables, the packet, and the MAC address returned, or null. -/
def matProtoPPPoEDisRx (t : PppoeTables) (pSkb : Skb) (pLayerHdr : Nat) (c : PppoeCall) :
    Option (PppoeTables × Skb × Option MacAddr) := do
  let verType ← pSkb.buf[pLayerHdr]?
  if verType ≠ 0x11 then some (t, pSkb, none)
  else do
    let code ← pSkb.buf[pLayerHdr + 1]?
    let sesID ← getNtohs pSkb.buf (pLayerHdr + 2)
    if code = pppoeCodePadt then do
      let pOutMac ← getMac pSkb.buf 6
      let out := getInMacByOutMacFromSesMacTb t.sesMacTable pOutMac sesID c.sesLookUpNow
      some ({ t with sesMacTable := out.1 }, pSkb, out.2)
    else match rxFindTag code with
    | none => some (t, pSkb, none)
    | some findTag => do
      let payloadLen ← getNtohs pSkb.buf (pLayerHdr + 4)
      let found ← tagSearch pSkb.buf pLayerHdr findTag payloadLen
      match found.1 with
      | none => some (t, pSkb, none)
      | some pTagContent => do
        let tagLen := min found.2.toNat pppoeDisUidLen
        let uid ← fetch pSkb.buf pTagContent tagLen
        let out := uidMacTableLookUp t.uidMacTable uid c.lookUpNow
        let t := { t with uidMacTable := out.1 }
        match out.2 with
        | none => some (t, pSkb, none)
        | some x => do
          let pSkb ← (if x.uIDAddByUs then
              removeTag pSkb (pLayerHdr + 4) payloadLen pTagContent tagLen
            else some pSkb)
          if code = pppoeCodePads then do
            let pSrvMac ← getMac pSkb.buf 6
            let t := { t with sesMacTable :=
              (sesMacTableUpdate t.sesMacTable x.macAddr sesID pSrvMac c.sesNow c.sesAlloc).1 }
            some (t, pSkb, some x.macAddr)
          else some (t, pSkb, some x.macAddr)

end RalinkSdk.Mat
