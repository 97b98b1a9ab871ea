import RalinkSdk.Mat.Pppoe

/-!
# Neighbour discovery through the MAC translation

Neighbour discovery carries link-layer addresses as options of its messages.  Where a station tells
the network its own, the driver puts the address of the device in its place, and computes the
checksum of the message anew.

A packet is the bytes of its buffer from the Ethernet header on.  A function returns `none` where
the code leaves the buffer.  Offsets are counted from the IPv6 header.

## Source

`common/cmm_mat_ipv6.c`, `common/cmm_mat.c`, `include/ipv6.h`, `include/mat.h`.
-/

namespace RalinkSdk.Mat

open IgmpSnoop (MacAddr FrameByte ipv6ExtHdrHandle)
open Lib
open scoped IgmpSnoop

/-! ## Numbers -/

def ipv6HdrLen : Nat := 40

def ipv6NextHeaderNone : FrameByte := 0x3b

def ipv6NextHeaderTcp : FrameByte := 0x06

def ipv6NextHeaderUdp : FrameByte := 0x11

def ipv6NextHeaderIcmpv6 : FrameByte := 0x3a

def icmpv6MsgTypeRouterSolicitation : FrameByte := 0x85

def routerSolicitationFixedLen : Nat := 8

def icmpv6MsgTypeRouterAdvertisement : FrameByte := 0x86

def routerAdvertisementFixedLen : Nat := 16

def icmpv6MsgTypeNeighborSolicitation : FrameByte := 0x87

def neighborSolicitationFixedLen : Nat := 24

def icmpv6MsgTypeNeighborAdvertisement : FrameByte := 0x88

def neighborAdvertisementFixedLen : Nat := 24

def icmpv6MsgTypeRedirect : FrameByte := 0x89

def redirectFixedLen : Nat := 40

def typeSrcLlAddr : FrameByte := 1

def typeTgtLlAddr : FrameByte := 2

/-- `sizeof(RT_ICMPV6_OPTION_HDR)`, with the byte that stands for the rest of the option. -/
def sizeofOptionHdr : BitVec 32 := 3

/-! ## The checksum -/

/-- A word as the machine loads it, with the byte of the lowest address in the lowest bits. -/
def load32 (mem : List FrameByte) (p : Nat) : Option (BitVec 32) :=
  (fetch mem p 4).map fun b => b.getD 3 0 ++ b.getD 2 0 ++ b.getD 1 0 ++ b.getD 0 0

def ushortBytes (x : BitVec 16) : List FrameByte := [x.extractLsb' 0 8, x.extractLsb' 8 8]

/-- `csum += x`, and the carry. -/
def addCarry (csum x : BitVec 32) : BitVec 32 :=
  let csum := csum + x
  let carry : BitVec 32 := if csum < x then 1 else 0
  csum + carry

def addWords (mem : List FrameByte) : Nat → Nat → BitVec 32 → Option (BitVec 32)
  | 0, _, csum => some csum
  | n + 1, p, csum => do
    let x ← load32 mem p
    addWords mem n (p + 4) (addCarry csum x)

/-- `while (csum >> 16)`, which makes two turns at most. -/
def foldCarries : Nat → BitVec 32 → BitVec 32
  | 0, csum => csum
  | fuel + 1, csum =>
    if csum >>> 16 = 0 then csum
    else foldCarries fuel ((csum &&& (0xffff : BitVec 32)) + (csum >>> 16))

/-- `icmpv6_csum`; `OS_HTONL` is `ntohl`. -/
def icmpv6Csum (mem : List FrameByte) (saddr daddr : Nat) (len : BitVec 16) (proto : FrameByte)
    (pICMPMsg : Nat) : Option (BitVec 16) :=
  if len.toNat % 4 ≠ 0 then some 0
  else do
    let csum ← addWords mem 4 saddr 0
    let csum ← addWords mem 4 daddr csum
    let csum := addCarry csum (ntohl (len.setWidth 32))
    let csum := addCarry csum (ntohl (proto.setWidth 32))
    let csum ← addWords mem (len.toNat / 4) pICMPMsg csum
    some ((~~~foldCarries 3 csum).setWidth 16)

/-! ## The message -/

/-- The messages that are handled, by their types: how long the part in front of the options is, and
    which option is wanted. -/
def ndMessage (type : FrameByte) : Option (Nat × FrameByte) :=
  if type = icmpv6MsgTypeRouterSolicitation then
    some (routerSolicitationFixedLen, typeSrcLlAddr)
  else if type = icmpv6MsgTypeRouterAdvertisement then
    some (routerAdvertisementFixedLen, typeSrcLlAddr)
  else if type = icmpv6MsgTypeNeighborSolicitation then
    some (neighborSolicitationFixedLen, typeSrcLlAddr)
  else if type = icmpv6MsgTypeNeighborAdvertisement then
    some (neighborAdvertisementFixedLen, typeTgtLlAddr)
  else if type = icmpv6MsgTypeRedirect then some (redirectFixedLen, typeTgtLlAddr)
  else none

def isUnspecifiedIpv6Addr (mem : List FrameByte) (p : Nat) : Option Bool :=
  (fetch mem p 16).map fun addr => addr.all (· == 0)

/-- The loop over the options: where the address begins, if there is an option of the type that is
    wanted.  Every turn reads eight bytes further on at least, so that the loop does not run out of
    fuel before it has left the buffer. -/
def optLoop (mem : List FrameByte) (pLayerHdr : Nat) (wanted : FrameByte) :
    Nat → Nat → BitVec 32 → Option (Option Nat)
  | 0, _, _ => none
  | fuel + 1, offset, leftLen =>
    if leftLen ≤ sizeofOptionHdr then some none
    else do
      let type ← mem[pLayerHdr + offset]?
      let len ← mem[pLayerHdr + offset + 1]?
      if len = 0 then some none
      else if type = wanted then some (some (offset + 2))
      else
        let optLen := len.toNat * 8
        optLoop mem pLayerHdr wanted fuel (offset + optLen) (leftLen - BitVec.ofNat 32 optLen)

/-- Puts the address of the device into the option, and the new checksum into the header. -/
def replaceLlAddr (mem : List FrameByte) (pIPv6Hdr icmpOffset offset : Nat) (icmpMsgLen : BitVec 32)
    (pDevMacAdr : MacAddr) : Option (List FrameByte) := do
  let mem ← put mem (pIPv6Hdr + offset) (List.ofFn pDevMacAdr)
  let mem ← put mem (pIPv6Hdr + icmpOffset + 2) (ushortBytes 0)
  -- the length is passed as a `USHORT`
  let chksum ← icmpv6Csum mem (pIPv6Hdr + 8) (pIPv6Hdr + 24) (icmpMsgLen.setWidth 16)
    ipv6NextHeaderIcmpv6 (pIPv6Hdr + icmpOffset)
  put mem (pIPv6Hdr + icmpOffset + 2) (ushortBytes chksum)

/-- Where the header behind that of Ethernet begins, by `IS_VLAN_PACKET`. -/
def layerHdr (mem : List FrameByte) : Nat := if getNtohs mem 12 = some 0x8100 then 14 + 4 else 14

/-- `ICMPv6_Handle_Tx`: the packet that was passed, and the one returned, or null.  Without memory
    for a copy the packet is changed where it is. -/
def icmpv6HandleTx (pSkb : Skb) (pLayerHdr : Nat) (pDevMacAdr : MacAddr) (offset : Nat)
    (copyAlloc : Bool) : Option (Skb × Option Skb) := do
  let payloadLen ← getNtohs pSkb.buf (pLayerHdr + 4)
  let icmpMsgLen : BitVec 32 :=
    payloadLen.setWidth 32 + BitVec.ofNat 32 ipv6HdrLen - BitVec.ofNat 32 offset
  let type ← pSkb.buf[pLayerHdr + offset]?
  match ndMessage type with
  | none => some (pSkb, none)
  | some (fixedLen, wanted) => do
    let unspecified ← isUnspecifiedIpv6Addr pSkb.buf (pLayerHdr + 8)
    let found ← (if unspecified then some none
      else optLoop pSkb.buf pLayerHdr wanted (pSkb.buf.length + 1) (offset + fixedLen) icmpMsgLen)
    match found with
    | none => some (pSkb, none)
    | some pSrcMac =>
      if pSkb.cloned ∧ copyAlloc then do
        -- `OS_PKT_COPY`
        let buf ← replaceLlAddr pSkb.buf (layerHdr pSkb.buf) offset pSrcMac icmpMsgLen pDevMacAdr
        some (pSkb, some { pSkb with buf := buf, cloned := false })
      else do
        let buf ← replaceLlAddr pSkb.buf pLayerHdr offset pSrcMac icmpMsgLen pDevMacAdr
        some ({ pSkb with buf := buf }, none)

/-! ## The extension headers -/

def extHdrLoop (mem : List FrameByte) (pLayerHdr : Nat) :
    Nat → FrameByte → Nat → Option (FrameByte × Nat)
  | 0, _, _ => none
  | fuel + 1, nextProtocol, offset =>
    if nextProtocol = ipv6NextHeaderIcmpv6 ∨ nextProtocol = ipv6NextHeaderUdp ∨
        nextProtocol = ipv6NextHeaderTcp ∨ nextProtocol = ipv6NextHeaderNone then
      some (nextProtocol, offset)
    else do
      let out ← ipv6ExtHdrHandle mem (pLayerHdr + offset) nextProtocol
      if out.1 then extHdrLoop mem pLayerHdr fuel out.2.1 (offset + out.2.2)
      else some (out.2.1, offset + out.2.2)

/-- What is behind the extension headers, and where it begins. -/
def upperLayer (mem : List FrameByte) (pLayerHdr : Nat) : Option (FrameByte × Nat) := do
  let nextHdr ← mem[pLayerHdr + 6]?
  extHdrLoop mem pLayerHdr (mem.length + 1) nextHdr ipv6HdrLen

def matProtoIpv6Tx (pSkb : Skb) (pLayerHdr : Nat) (pDevMacAdr : MacAddr) (copyAlloc : Bool) :
    Option (Skb × Option Skb) := do
  let out ← upperLayer pSkb.buf pLayerHdr
  if out.1 = ipv6NextHeaderIcmpv6 then
    icmpv6HandleTx pSkb pLayerHdr pDevMacAdr out.2 copyAlloc
  else some (pSkb, none)

end RalinkSdk.Mat
