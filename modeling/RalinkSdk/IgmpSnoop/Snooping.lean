import RalinkSdk.IgmpSnoop.Insertion
import Mathlib.Logic.Function.Iterate

/-!
# Membership reports on the wire

The access point listens to the group management packets of its stations: `IGMPSnooping` for
IPv4 and `MLDSnooping` for IPv6.  A packet is the list of its bytes, from the protocol number
before the IP header on; `none` is a read outside of it.  Both functions walk along the group
records of a report in the same way, so that the walk is one definition, with the length of an
address as its parameter.

## Source

`common/igmp_snoop.c`, `include/igmp_snoop.h`, `include/ipv6.h`, `include/rtmp.h`.
-/

namespace RalinkSdk.IgmpSnoop

open Lib Function Nat
open Option hiding or_assoc

/-! ## Reading -/

scoped instance (priority := 1100) instNeZeroMacAddrLen : NeZero 6 := ⟨succ_ne_zero 5⟩

scoped instance (priority := 1100) instNeZeroIpAddrLen : NeZero 4 := ⟨succ_ne_zero 3⟩

scoped instance (priority := 1100) instNeZeroIpv6AddrLen : NeZero 16 := ⟨succ_ne_zero 15⟩

abbrev FrameByte := BitVec 8

/-- `ntohs` of the two bytes at `p`. -/
def ntohsAt (pkt : List FrameByte) (p : Nat) : Option (BitVec 16) := do
  let hi ← pkt[p]?
  let lo ← pkt[p + 1]?
  some (hi ++ lo)

/-- The protocols of `ConvertMulticastIP2MAC`. -/
inductive ProtoType where
  | ethPIp
  | ethPIpv6
  deriving DecidableEq

/-- `ETH_P_IP`, `ETH_P_IPV6` -/
def ProtoType.number : ProtoType → BitVec 16
  | .ethPIp => 0x0800
  | .ethPIpv6 => 0x86dd

/-- The length of an IP address: 4 and `IPV6_ADDR_LEN`. -/
def ProtoType.addrLen : ProtoType → Nat
  | .ethPIp => 4
  | .ethPIpv6 => 16

def convertMulticastIp2Mac (protoType : ProtoType) (pkt : List FrameByte) (pIpAddr : Nat) :
    Option MacAddr :=
  match protoType with
  | .ethPIpv6 => do
    let b12 ← pkt[pIpAddr + 12]?
    let b13 ← pkt[pIpAddr + 13]?
    let b14 ← pkt[pIpAddr + 14]?
    let b15 ← pkt[pIpAddr + 15]?
    some ![0x33, 0x33, b12, b13, b14, b15]
  | .ethPIp => do
    let b1 ← pkt[pIpAddr + 1]?
    let b2 ← pkt[pIpAddr + 2]?
    let b3 ← pkt[pIpAddr + 3]?
    some ![0x01, 0x00, 0x5e, b1 &&& 0x7f, b2, b3]

/-! ## Records -/

/-- A group record that was processed: where it lies, and what was read of it. -/
structure Processed where
  pGroup : Nat
  groupType : FrameByte
  numOfSources : BitVec 16
  groupMacAddr : MacAddr
  deriving DecidableEq

/-- The head of the record at `pGroup`, and `pGroup` for the next one. -/
def groupRecord (protoType : ProtoType) (pkt : List FrameByte) (pGroup : Nat) :
    Option (Processed × Nat) := do
  let groupType ← pkt[pGroup]?
  let auxDataLen ← pkt[pGroup + 1]?
  let numOfSources ← ntohsAt pkt (pGroup + 2)
  let groupMacAddr ← convertMulticastIp2Mac protoType pkt (pGroup + 4)
  some (⟨pGroup, groupType, numOfSources, groupMacAddr⟩,
    pGroup + (4 + protoType.addrLen + numOfSources.toNat * protoType.addrLen + auxDataLen.toNat))

/-- The loop over the records of a report. -/
def groupRecords (protoType : ProtoType) (pkt : List FrameByte) :
    Nat → Nat → Option (List Processed)
  | 0, _ => some []
  | numOfGroup + 1, pGroup => do
    let out ← groupRecord protoType pkt pGroup
    let rest ← groupRecords protoType pkt numOfGroup out.2
    some (out.1 :: rest)

/-- What becomes of a packet. -/
inductive Snooped where
  | ignored
  | report (groupMacAddr : MacAddr)
  | leave (groupMacAddr : MacAddr)
  | groups (records : List Processed)
  deriving DecidableEq

/-- The call that a record leads to, with `IGMP_GROUP_TYPE` as it is numbered there. -/
def Processed.call (r : Processed) (pSrcMacAddr : MacAddr) (pDev : Nat) (now : Table.Readings) :
    Option Call :=
  -- `MODE_IS_EXCLUDE`, `CHANGE_TO_EXCLUDE_MODE`, `ALLOW_NEW_SOURCES`
  if r.groupType = 2 ∨ r.groupType = 4 ∨ r.groupType = 5 then
    some (.insertEntry r.groupMacAddr (some pSrcMacAddr) pDev .mcatFilterDynamic now)
  -- `CHANGE_TO_INCLUDE_MODE`, `MODE_IS_INCLUDE`, `BLOCK_OLD_SOURCES`
  else if r.groupType = 3 ∨ r.groupType = 1 ∨ r.groupType = 6 then
    if r.numOfSources = 0 then some (.deleteEntry r.groupMacAddr (some pSrcMacAddr) pDev)
    else some (.insertEntry r.groupMacAddr (some pSrcMacAddr) pDev .mcatFilterDynamic now)
  else none

/-- The calls that a packet leads to; the clock is read in each anew. -/
def Snooped.calls (s : Snooped) (pSrcMacAddr : MacAddr) (pDev : Nat)
    (now : Nat → Table.Readings) : List Call :=
  match s with
  | .ignored => []
  | .report g => [.insertEntry g (some pSrcMacAddr) pDev .mcatFilterDynamic (now 0)]
  | .leave g => [.deleteEntry g (some pSrcMacAddr) pDev]
  | .groups records =>
    records.zipIdx.filterMap fun r => r.1.call pSrcMacAddr pDev (now r.2)

/-! ## IPv4 -/

def isIgmpMacAddr (pMacAddr : MacAddr) : Bool :=
  pMacAddr 0 == 0x01 && pMacAddr 1 == 0x00 && pMacAddr 2 == 0x5e

def isIgmpPkt (pDstMacAddr : MacAddr) (pkt : List FrameByte) : Option Bool := do
  let ipProtocol ← ntohsAt pkt 0
  if !isIgmpMacAddr pDstMacAddr then some false
  else if ipProtocol = ProtoType.ethPIp.number then do
    let igmpProtocol ← pkt[11]?
    -- `IGMP_PROTOCOL_DESCRIPTOR`
    some (igmpProtocol == 0x02)
  else some false

/-- The packets with a list of group records, whose head is at `pHeader`. -/
def groupReport (protoType : ProtoType) (pkt : List FrameByte) (pHeader : Nat) :
    Option Snooped := do
  let numOfGroup ← ntohsAt pkt (pHeader + 6)
  let records ← groupRecords protoType pkt numOfGroup.toNat (pHeader + 8)
  some (.groups records)

def igmpSwitch (pkt : List FrameByte) (pIgmpHeader : Nat) (igmpVerType : FrameByte) :
    Option Snooped :=
  -- `IGMP_V1_MEMBERSHIP_REPORT`, `IGMP_V2_MEMBERSHIP_REPORT`
  if igmpVerType = 0x12 ∨ igmpVerType = 0x16 then
    (convertMulticastIp2Mac .ethPIp pkt (pIgmpHeader + 4)).map .report
  -- `IGMP_LEAVE_GROUP`
  else if igmpVerType = 0x17 then
    (convertMulticastIp2Mac .ethPIp pkt (pIgmpHeader + 4)).map .leave
  -- `IGMP_V3_MEMBERSHIP_REPORT`
  else if igmpVerType = 0x22 then groupReport .ethPIp pkt pIgmpHeader
  else some .ignored

def igmpSnooping (pDstMacAddr : MacAddr) (pkt : List FrameByte) : Option Snooped := do
  let isIgmp ← isIgmpPkt pDstMacAddr pkt
  if isIgmp then do
    let verIhl ← pkt[2]?
    let pIgmpHeader := 2 + (verIhl &&& 0x0f).toNat * 4
    let igmpVerType ← pkt[pIgmpHeader]?
    igmpSwitch pkt pIgmpHeader igmpVerType
  else some .ignored

/-! ## IPv6 -/

def isMldMacAddr (pMacAddr : MacAddr) : Bool := pMacAddr 0 == 0x33 && pMacAddr 1 == 0x33

/-- The extension headers with a length field: `IPV6_NEXT_HEADER_HOP_BY_HOP`,
    `IPV6_NEXT_HEADER_DESTINATION` and `IPV6_NEXT_HEADER_ROUTING`. -/
def isSizedExtHdr (proto : FrameByte) : Bool := proto == 0x00 || proto == 0x3c || proto == 0x2b

/-- The extension headers that are skipped: with `IPV6_NEXT_HEADER_FRAGMENT`. -/
def isExtHdr (proto : FrameByte) : Bool := isSizedExtHdr proto || proto == 0x2c

/-- `IPv6ExtHdrHandle` of the header at `pExtHdr`: the value, `*pProto` and what is added to
    `*pOffset`. -/
def ipv6ExtHdrHandle (pkt : List FrameByte) (pExtHdr : Nat) (proto : FrameByte) :
    Option (Bool × FrameByte × Nat) :=
  if isSizedExtHdr proto then do
    let nextProto ← pkt[pExtHdr]?
    let extHdrLen ← pkt[pExtHdr + 1]?
    some (true, nextProto, (extHdrLen.toNat + 1) * 8)
  else if proto = 0x2c then do
    let nextProto ← pkt[pExtHdr]?
    some (true, nextProto, 8)
  else some (false, 0xff, 0)

/-- The loop over the extension headers in `isMldPkt`, with the IPv6 header at byte 2; no more
    than one round for each byte of the packet.  A packet is shorter than 2 ^ 32 bytes, so that
    the offset does not wrap. -/
def extHdrLoop (pkt : List FrameByte) : Nat → FrameByte × Nat → Option (FrameByte × Nat)
  | 0, _ => none
  | fuel + 1, s =>
    -- `IPV6_NEXT_HEADER_ICMPV6`
    if s.1 = 0x3a then some s
    else do
      let out ← ipv6ExtHdrHandle pkt (2 + s.2) s.1
      if out.1 then extHdrLoop pkt fuel (out.2.1, s.2 + out.2.2)
      else some (out.2.1, s.2 + out.2.2)

def isSupportedMldMsg (msgType : FrameByte) : Bool :=
  -- `MLD_V1_LISTENER_REPORT`, `MLD_V1_LISTENER_DONE`, `MLD_V2_LISTERNER_REPORT`
  msgType == 131 || msgType == 132 || msgType == 143

/-- `isMldPkt`: `*pProtoType` and `*pMldHeader` where the value is `TRUE`. -/
def isMldPkt (pDstMacAddr : MacAddr) (pkt : List FrameByte) : Option (Option (FrameByte × Nat)) := do
  let ipProtocol ← ntohsAt pkt 0
  if !isMldMacAddr pDstMacAddr then some none
  else if ipProtocol ≠ ProtoType.ethPIpv6.number then some none
  else do
    let nextHdr ← pkt[8]?
    -- `IPV6_HDR_LEN`
    let s ← extHdrLoop pkt (pkt.length + 1) (nextHdr, 40)
    if s.1 = 0x3a then do
      let type ← pkt[2 + s.2]?
      if isSupportedMldMsg type then some (some (type, 2 + s.2)) else some none
    else some none

def mldSwitch (pkt : List FrameByte) (pMldHeader : Nat) (mldType : FrameByte) : Option Snooped :=
  -- `MLD_V1_LISTENER_REPORT`
  if mldType = 131 then
    (convertMulticastIp2Mac .ethPIpv6 pkt (pMldHeader + 8)).map .report
  -- `MLD_V1_LISTENER_DONE`
  else if mldType = 132 then
    (convertMulticastIp2Mac .ethPIpv6 pkt (pMldHeader + 8)).map .leave
  -- `MLD_V2_LISTERNER_REPORT`
  else if mldType = 143 then groupReport .ethPIpv6 pkt pMldHeader
  else some .ignored

def mldSnooping (pDstMacAddr : MacAddr) (pkt : List FrameByte) : Option Snooped := do
  let mld ← isMldPkt pDstMacAddr pkt
  match mld with
  | none => some .ignored
  | some (mldType, pMldHeader) => mldSwitch pkt pMldHeader mldType

/-! ## The table -/

/-! ## Reads inside the packet -/

/-- Byte `p` of the packet, or zero behind its end. -/
def byteAt (pkt : List FrameByte) (p : Nat) : FrameByte := pkt.getD p 0

/-- The two bytes at `p` as a number. -/
def wordAt (pkt : List FrameByte) (p : Nat) : BitVec 16 := byteAt pkt p ++ byteAt pkt (p + 1)

def nextRecord (protoType : ProtoType) (pkt : List FrameByte) (p : Nat) : Nat :=
  p + (4 + protoType.addrLen + (wordAt pkt (p + 2)).toNat * protoType.addrLen +
    (byteAt pkt (p + 1)).toNat)

/-- The heads of `n` records from `p` on, as the counts place them, lie inside the packet. -/
def RecordsInside (protoType : ProtoType) (pkt : List FrameByte) (n p : Nat) : Prop :=
  ∀ i < n, (nextRecord protoType pkt)^[i] p + (4 + protoType.addrLen) ≤ pkt.length

section

variable {pkt : List FrameByte} {p n : Nat} {protoType : ProtoType} {dst : MacAddr}

theorem getElem?_eq_byteAt (h : p < pkt.length) : pkt[p]? = some (byteAt pkt p) := by
  rw [byteAt, List.getD_eq_getElem?_getD, List.getElem?_eq_getElem h]
  rfl

theorem getElem?_eq_none_of_le (h : pkt.length ≤ p) : pkt[p]? = none :=
  List.getElem?_eq_none h

theorem ntohsAt_eq (h : p + 2 ≤ pkt.length) : ntohsAt pkt p = some (wordAt pkt p) := by
  rw [ntohsAt, getElem?_eq_byteAt (by omega), getElem?_eq_byteAt (by omega)]
  rfl

theorem ntohsAt_eq_none (h : pkt.length < p + 2) : ntohsAt pkt p = none := by
  have hlast : pkt[p + 1]? = none := getElem?_eq_none_of_le (by omega)
  simp [ntohsAt, hlast]

theorem convertMulticastIp2Mac_isSome_iff :
    (convertMulticastIp2Mac protoType pkt p).isSome ↔ p + protoType.addrLen ≤ pkt.length := by
  by_cases h : p + protoType.addrLen ≤ pkt.length
  · refine iff_of_true ?_ h
    cases protoType with
    | ethPIp =>
      simp only [ProtoType.addrLen] at h
      have h1 : pkt[p + 1]? = some (byteAt pkt (p + 1)) := getElem?_eq_byteAt (by omega)
      have h2 : pkt[p + 2]? = some (byteAt pkt (p + 2)) := getElem?_eq_byteAt (by omega)
      have h3 : pkt[p + 3]? = some (byteAt pkt (p + 3)) := getElem?_eq_byteAt (by omega)
      simp [convertMulticastIp2Mac, h1, h2, h3]
    | ethPIpv6 =>
      simp only [ProtoType.addrLen] at h
      have h12 : pkt[p + 12]? = some (byteAt pkt (p + 12)) := getElem?_eq_byteAt (by omega)
      have h13 : pkt[p + 13]? = some (byteAt pkt (p + 13)) := getElem?_eq_byteAt (by omega)
      have h14 : pkt[p + 14]? = some (byteAt pkt (p + 14)) := getElem?_eq_byteAt (by omega)
      have h15 : pkt[p + 15]? = some (byteAt pkt (p + 15)) := getElem?_eq_byteAt (by omega)
      simp [convertMulticastIp2Mac, h12, h13, h14, h15]
  · -- the last byte is the one that is missing first
    refine iff_of_false ?_ h
    cases protoType with
    | ethPIp =>
      have hlast : pkt[p + 3]? = none :=
        getElem?_eq_none_of_le (by simp only [ProtoType.addrLen] at h; omega)
      simp [convertMulticastIp2Mac, hlast]
    | ethPIpv6 =>
      have hlast : pkt[p + 15]? = none :=
        getElem?_eq_none_of_le (by simp only [ProtoType.addrLen] at h; omega)
      simp [convertMulticastIp2Mac, hlast]

theorem groupRecord_eq (h : p + (4 + protoType.addrLen) ≤ pkt.length) :
    ∃ g, convertMulticastIp2Mac protoType pkt (p + 4) = some g ∧
      groupRecord protoType pkt p =
        some (⟨p, byteAt pkt p, wordAt pkt (p + 2), g⟩, nextRecord protoType pkt p) := by
  have hsome : (convertMulticastIp2Mac protoType pkt (p + 4)).isSome :=
    convertMulticastIp2Mac_isSome_iff.mpr (by omega)
  obtain ⟨g, hg⟩ := isSome_iff_exists.mp hsome
  refine ⟨g, hg, ?_⟩
  have htype : pkt[p]? = some (byteAt pkt p) := getElem?_eq_byteAt (by omega)
  have haux : pkt[p + 1]? = some (byteAt pkt (p + 1)) := getElem?_eq_byteAt (by omega)
  rw [groupRecord, htype, haux, ntohsAt_eq (by omega), hg]
  rfl

theorem groupRecord_eq_none (h : ¬ p + (4 + protoType.addrLen) ≤ pkt.length) :
    groupRecord protoType pkt p = none := by
  have hg : convertMulticastIp2Mac protoType pkt (p + 4) = none := by
    rw [← not_isSome_iff_eq_none, convertMulticastIp2Mac_isSome_iff]
    omega
  simp [groupRecord, hg]

theorem isSome_bind_some {α β : Type} (x : Option α) (f : α → β) :
    (x.bind fun a => some (f a)).isSome = x.isSome := by
  cases x <;> rfl

/-- **The loop over the records** stays inside exactly when every record it comes to does. -/
theorem groupRecords_isSome_iff :
    (groupRecords protoType pkt n p).isSome ↔ RecordsInside protoType pkt n p := by
  induction n generalizing p with
  | zero => simp [groupRecords, RecordsInside]
  | succ n ih =>
    by_cases h : p + (4 + protoType.addrLen) ≤ pkt.length
    · obtain ⟨g, -, hrecord⟩ := groupRecord_eq h
      have hrest : (groupRecords protoType pkt (n + 1) p).isSome =
          (groupRecords protoType pkt n (nextRecord protoType pkt p)).isSome := by
        rw [groupRecords, hrecord]
        exact isSome_bind_some _ _
      rw [hrest, ih]
      -- the records behind the first are those from the next one on
      constructor
      · intro hall i hi
        cases i with
        | zero => exact h
        | succ i =>
          rw [iterate_succ_apply]
          exact hall i (by omega)
      · intro hall i hi
        rw [← iterate_succ_apply]
        exact hall (i + 1) (by omega)
    · refine iff_of_false ?_ fun hall => h (hall 0 (succ_pos n))
      rw [groupRecords, groupRecord_eq_none h]
      simp

/-- The head of a report with records lies inside the packet, and so do those of its records. -/
structure ReportInside (protoType : ProtoType) (pkt : List FrameByte) (p : Nat) : Prop where
  count : p + 8 ≤ pkt.length
  records : RecordsInside protoType pkt (wordAt pkt (p + 6)).toNat (p + 8)

theorem groupReport_isSome_iff :
    (groupReport protoType pkt p).isSome ↔ ReportInside protoType pkt p := by
  by_cases h : p + 8 ≤ pkt.length
  · have hreport : (groupReport protoType pkt p).isSome =
        (groupRecords protoType pkt (wordAt pkt (p + 6)).toNat (p + 8)).isSome := by
      rw [groupReport, ntohsAt_eq (by omega)]
      exact isSome_bind_some _ _
    rw [hreport, groupRecords_isSome_iff]
    exact ⟨fun hrecords => ⟨h, hrecords⟩, fun hinside => hinside.records⟩
  · refine iff_of_false ?_ fun hinside => h hinside.count
    rw [groupReport, ntohsAt_eq_none (by omega)]
    simp

/-- **A message** names one group that is joined or left, or carries a list of records, or asks for
    nothing. -/
theorem switch_isSome_iff {isReport isLeave isGroups : Prop} [Decidable isReport]
    [Decidable isLeave] [Decidable isGroups] (hgroups : isGroups → ¬ (isReport ∨ isLeave))
    (q : Nat) : (if isReport then (convertMulticastIp2Mac protoType pkt q).map Snooped.report
      else if isLeave then (convertMulticastIp2Mac protoType pkt q).map Snooped.leave
      else if isGroups then groupReport protoType pkt p else some .ignored).isSome ↔
      (isReport ∨ isLeave → q + protoType.addrLen ≤ pkt.length) ∧
        (isGroups → ReportInside protoType pkt p) := by
  by_cases hone : isReport ∨ isLeave
  · -- one group: its address is read
    have hnot : ¬ isGroups := fun h => hgroups h hone
    have hread : (if isReport then (convertMulticastIp2Mac protoType pkt q).map Snooped.report
        else if isLeave then (convertMulticastIp2Mac protoType pkt q).map Snooped.leave
        else if isGroups then groupReport protoType pkt p
        else some .ignored).isSome = (convertMulticastIp2Mac protoType pkt q).isSome := by
      by_cases hreport : isReport
      · rw [if_pos hreport, isSome_map]
      · rw [if_neg hreport, if_pos (hone.resolve_left hreport), isSome_map]
    rw [hread, convertMulticastIp2Mac_isSome_iff]
    exact ⟨fun h => ⟨fun _ => h, fun hg => absurd hg hnot⟩, fun h => h.1 hone⟩
  · -- no single group: the records are read, or nothing
    obtain ⟨hreport, hleave⟩ := not_or.mp hone
    rw [if_neg hreport, if_neg hleave]
    by_cases hg : isGroups
    · rw [if_pos hg, groupReport_isSome_iff]
      exact ⟨fun h => ⟨fun h1 => absurd h1 hone, fun _ => h⟩, fun h => h.2 hg⟩
    · rw [if_neg hg]
      exact iff_of_true rfl ⟨fun h1 => absurd h1 hone, fun hg' => absurd hg' hg⟩

end

/-! ### IPv4 -/

section

variable {pkt : List FrameByte} {p : Nat} {dst : MacAddr}

/-- What the type in the IGMP header at `p` makes the code read lies inside the packet. -/
structure IgmpBodyInside (pkt : List FrameByte) (p : Nat) (type : FrameByte) : Prop where
  group : type = 0x12 ∨ type = 0x16 ∨ type = 0x17 → p + 8 ≤ pkt.length
  report : type = 0x22 → ReportInside .ethPIp pkt p

/-- **The bytes that `IGMPSnooping` reads** lie inside the packet. -/
structure IgmpInside (pDstMacAddr : MacAddr) (pkt : List FrameByte) : Prop where
  number : 2 ≤ pkt.length
  protocol : isIgmpMacAddr pDstMacAddr = true → wordAt pkt 0 = ProtoType.ethPIp.number →
    12 ≤ pkt.length
  type : isIgmpMacAddr pDstMacAddr = true → wordAt pkt 0 = ProtoType.ethPIp.number →
    byteAt pkt 11 = 0x02 → 2 + (byteAt pkt 2 &&& 0x0f).toNat * 4 < pkt.length
  body : isIgmpMacAddr pDstMacAddr = true → wordAt pkt 0 = ProtoType.ethPIp.number →
    byteAt pkt 11 = 0x02 → IgmpBodyInside pkt (2 + (byteAt pkt 2 &&& 0x0f).toNat * 4)
      (byteAt pkt (2 + (byteAt pkt 2 &&& 0x0f).toNat * 4))

theorem igmpSwitch_isSome_iff (type : FrameByte) :
    (igmpSwitch pkt p type).isSome ↔ IgmpBodyInside pkt p type := by
  have hgroups : type = 0x22 → ¬ ((type = 0x12 ∨ type = 0x16) ∨ type = 0x17) := by
    rintro rfl
    decide
  rw [igmpSwitch, switch_isSome_iff hgroups, or_assoc]
  exact ⟨fun h => ⟨h.1, h.2⟩, fun h => ⟨h.group, h.report⟩⟩

/-- **Which packets are read inside their bounds**: those whose counts stay inside. -/
theorem igmpSnooping_isSome_iff : (igmpSnooping dst pkt).isSome ↔ IgmpInside dst pkt := by
  by_cases hnumber : 2 ≤ pkt.length
  swap
  · refine iff_of_false ?_ fun h => hnumber h.number
    rw [igmpSnooping, isIgmpPkt, ntohsAt_eq_none (by omega)]
    simp
  have hword : ntohsAt pkt 0 = some (wordAt pkt 0) := ntohsAt_eq hnumber
  by_cases hmac : isIgmpMacAddr dst = true
  swap
  · refine iff_of_true ?_ ⟨hnumber, fun h => absurd h hmac, fun h => absurd h hmac,
      fun h => absurd h hmac⟩
    simp [igmpSnooping, isIgmpPkt, hword, hmac]
  by_cases hip : wordAt pkt 0 = ProtoType.ethPIp.number
  swap
  · refine iff_of_true ?_ ⟨hnumber, fun _ h => absurd h hip, fun _ h => absurd h hip,
      fun _ h => absurd h hip⟩
    simp [igmpSnooping, isIgmpPkt, hword, hmac, hip]
  by_cases hproto : 12 ≤ pkt.length
  swap
  · refine iff_of_false ?_ fun h => hproto (h.protocol hmac hip)
    have hnone : pkt[11]? = none := getElem?_eq_none_of_le (by omega)
    simp [igmpSnooping, isIgmpPkt, hword, hmac, hip, hnone]
  have hbyte : pkt[11]? = some (byteAt pkt 11) := getElem?_eq_byteAt (by omega)
  have hpkt : isIgmpPkt dst pkt = some (byteAt pkt 11 == 0x02) := by
    simp [isIgmpPkt, hword, hmac, hip, hbyte]
  by_cases higmp : byteAt pkt 11 = 0x02
  swap
  · refine iff_of_true ?_ ⟨hnumber, fun _ _ => hproto, fun _ _ h => absurd h higmp,
      fun _ _ h => absurd h higmp⟩
    rw [beq_eq_false_iff_ne.mpr higmp] at hpkt
    simp [igmpSnooping, hpkt]
  have hihl : pkt[2]? = some (byteAt pkt 2) := getElem?_eq_byteAt (by omega)
  -- an IGMP packet: the header length leads to the type
  have hrun : igmpSnooping dst pkt =
      (pkt[2 + (byteAt pkt 2 &&& 0x0f).toNat * 4]?).bind
        (igmpSwitch pkt (2 + (byteAt pkt 2 &&& 0x0f).toNat * 4)) := by
    simp [igmpSnooping, hpkt, higmp, hihl]
  rw [hrun]
  by_cases htype : 2 + (byteAt pkt 2 &&& 0x0f).toNat * 4 < pkt.length
  · rw [getElem?_eq_byteAt htype, bind_some, igmpSwitch_isSome_iff]
    exact ⟨fun h => ⟨hnumber, fun _ _ => hproto, fun _ _ _ => htype, fun _ _ _ => h⟩,
      fun h => h.body hmac hip higmp⟩
  · refine iff_of_false ?_ fun h => htype (h.type hmac hip higmp)
    rw [getElem?_eq_none_of_le (by omega)]
    simp

end

/-! ### IPv6 -/

section

variable {pkt : List FrameByte} {p fuel : Nat} {dst : MacAddr} {s r : FrameByte × Nat}

/-- The state of the loop after the extension header it is at; any other header stays. -/
def extHdrNext (pkt : List FrameByte) (s : FrameByte × Nat) : FrameByte × Nat :=
  if isSizedExtHdr s.1 then
    (byteAt pkt (2 + s.2), s.2 + ((byteAt pkt (2 + s.2 + 1)).toNat + 1) * 8)
  else if s.1 = 0x2c then (byteAt pkt (2 + s.2), s.2 + 8)
  else s

/-- How many bytes of an extension header are read. -/
def extHdrRead (proto : FrameByte) : Nat := if isSizedExtHdr proto then 2 else 1

/-- The extension headers from `s` on, as their lengths place them, lie inside the packet. -/
def ExtHdrsInside (pkt : List FrameByte) (s : FrameByte × Nat) : Prop :=
  ∀ k, isExtHdr ((extHdrNext pkt)^[k] s).1 = true →
    2 + ((extHdrNext pkt)^[k] s).2 + extHdrRead ((extHdrNext pkt)^[k] s).1 ≤ pkt.length

/-- What the type in the ICMPv6 header at `p` makes the code read lies inside the packet. -/
structure MldBodyInside (pkt : List FrameByte) (p : Nat) (type : FrameByte) : Prop where
  group : type = 131 ∨ type = 132 → p + 24 ≤ pkt.length
  report : type = 143 → ReportInside .ethPIpv6 pkt p

/-- **The bytes that `MLDSnooping` reads** lie inside the packet. -/
structure MldInside (pDstMacAddr : MacAddr) (pkt : List FrameByte) : Prop where
  number : 2 ≤ pkt.length
  next : isMldMacAddr pDstMacAddr = true → wordAt pkt 0 = ProtoType.ethPIpv6.number →
    9 ≤ pkt.length
  headers : isMldMacAddr pDstMacAddr = true → wordAt pkt 0 = ProtoType.ethPIpv6.number →
    ExtHdrsInside pkt (byteAt pkt 8, 40)
  type : isMldMacAddr pDstMacAddr = true → wordAt pkt 0 = ProtoType.ethPIpv6.number →
    ∀ k, ((extHdrNext pkt)^[k] (byteAt pkt 8, 40)).1 = 0x3a →
      2 + ((extHdrNext pkt)^[k] (byteAt pkt 8, 40)).2 < pkt.length
  body : isMldMacAddr pDstMacAddr = true → wordAt pkt 0 = ProtoType.ethPIpv6.number →
    ∀ k, ((extHdrNext pkt)^[k] (byteAt pkt 8, 40)).1 = 0x3a →
      MldBodyInside pkt (2 + ((extHdrNext pkt)^[k] (byteAt pkt 8, 40)).2)
        (byteAt pkt (2 + ((extHdrNext pkt)^[k] (byteAt pkt 8, 40)).2))

theorem extHdrNext_of_not (h : isExtHdr s.1 = false) : extHdrNext pkt s = s := by
  simp only [isExtHdr, Bool.or_eq_false_iff, beq_eq_false_iff_ne] at h
  rw [extHdrNext, if_neg (by simp [h.1]), if_neg h.2]

theorem ipv6ExtHdrHandle_of_not (h : isExtHdr s.1 = false) :
    ipv6ExtHdrHandle pkt p s.1 = some (false, 0xff, 0) := by
  simp only [isExtHdr, Bool.or_eq_false_iff, beq_eq_false_iff_ne] at h
  rw [ipv6ExtHdrHandle, if_neg (by simp [h.1]), if_neg h.2]

theorem ipv6ExtHdrHandle_eq (h : isExtHdr s.1 = true)
    (hin : 2 + s.2 + extHdrRead s.1 ≤ pkt.length) :
    ∃ d, ipv6ExtHdrHandle pkt (2 + s.2) s.1 = some (true, (extHdrNext pkt s).1, d) ∧
      s.2 + d = (extHdrNext pkt s).2 ∧ 8 ≤ d := by
  by_cases hsized : isSizedExtHdr s.1 = true
  · rw [extHdrRead, if_pos hsized] at hin
    have hnext : pkt[2 + s.2]? = some (byteAt pkt (2 + s.2)) := getElem?_eq_byteAt (by omega)
    have hlen : pkt[2 + s.2 + 1]? = some (byteAt pkt (2 + s.2 + 1)) :=
      getElem?_eq_byteAt (by omega)
    refine ⟨((byteAt pkt (2 + s.2 + 1)).toNat + 1) * 8, ?_, ?_, by omega⟩
    · rw [ipv6ExtHdrHandle, if_pos hsized, hnext, hlen, extHdrNext, if_pos hsized]
      rfl
    · rw [extHdrNext, if_pos hsized]
  · have hfragment : s.1 = 0x2c := by
      simpa [isExtHdr, Bool.not_eq_true _ ▸ hsized] using h
    rw [extHdrRead, if_neg hsized] at hin
    have hnext : pkt[2 + s.2]? = some (byteAt pkt (2 + s.2)) := getElem?_eq_byteAt (by omega)
    refine ⟨8, ?_, ?_, Nat.le_refl 8⟩
    · rw [ipv6ExtHdrHandle, if_neg hsized, if_pos hfragment, hnext, extHdrNext, if_neg hsized,
        if_pos hfragment]
      rfl
    · rw [extHdrNext, if_neg hsized, if_pos hfragment]

theorem ipv6ExtHdrHandle_eq_none (h : isExtHdr s.1 = true)
    (hout : ¬ 2 + s.2 + extHdrRead s.1 ≤ pkt.length) :
    ipv6ExtHdrHandle pkt (2 + s.2) s.1 = none := by
  by_cases hsized : isSizedExtHdr s.1 = true
  · rw [extHdrRead, if_pos hsized] at hout
    have hlen : pkt[2 + s.2 + 1]? = none := getElem?_eq_none_of_le (by omega)
    simp [ipv6ExtHdrHandle, hsized, hlen]
  · have hfragment : s.1 = 0x2c := by
      simpa [isExtHdr, Bool.not_eq_true _ ▸ hsized] using h
    rw [extHdrRead, if_neg hsized] at hout
    have hnext : pkt[2 + s.2]? = none := getElem?_eq_none_of_le (by omega)
    rw [ipv6ExtHdrHandle, if_neg hsized, if_pos hfragment, hnext]
    rfl

theorem isExtHdr_icmpv6 : isExtHdr 0x3a = false := by decide

theorem iterate_extHdrNext_of_not (h : isExtHdr s.1 = false) (k : Nat) :
    (extHdrNext pkt)^[k] s = s :=
  iterate_fixed (extHdrNext_of_not h) k

/-- How the loop ends with `r` from `s` on: at a header that is no extension header, and with
    `IPV6_NEXT_HEADER_ICMPV6` only at that one. -/
def ExtHdrsEnd (pkt : List FrameByte) (s r : FrameByte × Nat) : Prop :=
  ∃ k, isExtHdr ((extHdrNext pkt)^[k] s).1 = false ∧
    (r = (extHdrNext pkt)^[k] s ∨ r.1 ≠ 0x3a ∧ ((extHdrNext pkt)^[k] s).1 ≠ 0x3a)

theorem extHdrLoop_of_not (h : isExtHdr s.1 = false) :
    ∃ r, extHdrLoop pkt (fuel + 1) s = some r ∧ ExtHdrsEnd pkt s r ∧ ExtHdrsInside pkt s := by
  have hinside : ExtHdrsInside pkt s := by
    intro k hk
    rw [iterate_extHdrNext_of_not h, h] at hk
    exact absurd hk (by simp)
  by_cases hicmp : s.1 = 0x3a
  · exact ⟨s, by rw [extHdrLoop, if_pos hicmp], ⟨0, h, .inl rfl⟩, hinside⟩
  · refine ⟨(0xff, s.2 + 0), ?_, ⟨0, h, .inr ⟨by simp, hicmp⟩⟩, hinside⟩
    rw [extHdrLoop, if_neg hicmp, ipv6ExtHdrHandle_of_not h]
    rfl

theorem extHdr_ne_icmpv6 (h : isExtHdr s.1 = true) : s.1 ≠ 0x3a := by
  intro hicmp
  rw [hicmp, isExtHdr_icmpv6] at h
  exact absurd h (by simp)

theorem extHdrLoop_eq_none (h : isExtHdr s.1 = true)
    (hout : ¬ 2 + s.2 + extHdrRead s.1 ≤ pkt.length) :
    extHdrLoop pkt (fuel + 1) s = none ∧ ¬ ExtHdrsInside pkt s := by
  refine ⟨?_, fun hall => hout (hall 0 h)⟩
  rw [extHdrLoop, if_neg (extHdr_ne_icmpv6 h), ipv6ExtHdrHandle_eq_none h hout]
  rfl

/-- What the loop does with `fuel + 1` rounds: it stays inside exactly when every extension header
    does, and it ends as it should. -/
structure ExtHdrLoopRight (pkt : List FrameByte) (fuel : Nat) (s : FrameByte × Nat) : Prop where
  inside : (extHdrLoop pkt (fuel + 1) s).isSome ↔ ExtHdrsInside pkt s
  ends : ∀ r, extHdrLoop pkt (fuel + 1) s = some r → ExtHdrsEnd pkt s r

theorem ExtHdrLoopRight.of_skip
    (hskip : isExtHdr s.1 = true → 2 + s.2 + extHdrRead s.1 ≤ pkt.length →
      ExtHdrLoopRight pkt fuel s) : ExtHdrLoopRight pkt fuel s := by
  by_cases hext : isExtHdr s.1 = true
  swap
  · obtain ⟨r, hrun, hends, hinside⟩ := @extHdrLoop_of_not pkt fuel s (Bool.not_eq_true _ ▸ hext)
    refine ⟨iff_of_true (by rw [hrun]; rfl) hinside, ?_⟩
    intro r' hr'
    obtain rfl : r = r' := some.inj (hrun.symm.trans hr')
    exact hends
  by_cases hin : 2 + s.2 + extHdrRead s.1 ≤ pkt.length
  · exact hskip hext hin
  · obtain ⟨hrun, hinside⟩ := @extHdrLoop_eq_none pkt fuel s hext hin
    refine ⟨iff_of_false (by rw [hrun]; simp) hinside, ?_⟩
    intro r hr
    rw [hrun] at hr
    cases hr

/-- **The loop over the extension headers**: every round takes eight bytes of the packet, so that
    the rounds do not run out before the packet does. -/
theorem extHdrLoop_right (hfuel : pkt.length ≤ 2 + s.2 + 8 * fuel) :
    ExtHdrLoopRight pkt fuel s := by
  induction fuel generalizing s with
  | zero =>
    -- another header would need a byte behind the packet
    apply ExtHdrLoopRight.of_skip
    intro hext hin
    have hread : 1 ≤ extHdrRead s.1 := by
      unfold extHdrRead
      split <;> omega
    omega
  | succ fuel ih =>
    apply ExtHdrLoopRight.of_skip
    intro hext hin
    obtain ⟨d, hhandle, hnext, hd⟩ := ipv6ExtHdrHandle_eq hext hin
    have hstep : extHdrLoop pkt (fuel + 1 + 1) s = extHdrLoop pkt (fuel + 1) (extHdrNext pkt s) := by
      rw [extHdrLoop, if_neg (extHdr_ne_icmpv6 hext), hhandle, ← Prod.eta (extHdrNext pkt s),
        ← hnext]
      rfl
    have hrest : ExtHdrLoopRight pkt fuel (extHdrNext pkt s) := ih (by omega)
    -- the walk from here is one header and the walk from the next one
    refine ⟨?_, ?_⟩
    · rw [hstep, hrest.inside]
      constructor
      · intro hall k
        cases k with
        | zero => exact fun _ => hin
        | succ k =>
          rw [iterate_succ_apply]
          exact hall k
      · intro hall k
        rw [← iterate_succ_apply]
        exact hall (k + 1)
    · intro r hr
      rw [hstep] at hr
      obtain ⟨k, hk, hends⟩ := hrest.ends r hr
      rw [← iterate_succ_apply] at hk hends
      exact ⟨k + 1, hk, hends⟩

theorem ExtHdrsEnd.eq_of_icmpv6 (hends : ExtHdrsEnd pkt s r) {j : Nat}
    (hj : ((extHdrNext pkt)^[j] s).1 = 0x3a) : (extHdrNext pkt)^[j] s = r := by
  obtain ⟨k, hk, hr⟩ := hends
  have hjnot : isExtHdr ((extHdrNext pkt)^[j] s).1 = false := by
    rw [hj]
    exact isExtHdr_icmpv6
  -- the two walks end at one header
  have heq : (extHdrNext pkt)^[j] s = (extHdrNext pkt)^[k] s := by
    rw [← iterate_extHdrNext_of_not hjnot k, ← iterate_extHdrNext_of_not hk j,
      ← iterate_add_apply, ← iterate_add_apply, Nat.add_comm]
  rw [heq] at hj ⊢
  exact (hr.resolve_right fun h => h.2 hj).symm

theorem mldSwitch_isSome_iff (type : FrameByte) :
    (mldSwitch pkt p type).isSome ↔ MldBodyInside pkt p type := by
  have hgroups : type = 143 → ¬ (type = 131 ∨ type = 132) := by
    rintro rfl
    decide
  rw [mldSwitch, switch_isSome_iff hgroups]
  exact ⟨fun h => ⟨h.1, h.2⟩, fun h => ⟨h.group, h.report⟩⟩

theorem mldBodyInside_of_not_supported {type : FrameByte} (h : ¬ isSupportedMldMsg type = true) :
    MldBodyInside pkt p type := by
  simp only [isSupportedMldMsg, Bool.or_eq_true, beq_iff_eq, not_or] at h
  exact ⟨fun heq => by tauto, fun heq => absurd heq h.2⟩

theorem mldSnooping_of_headers (hmac : isMldMacAddr dst = true)
    (hip : wordAt pkt 0 = ProtoType.ethPIpv6.number) (hnext : 9 ≤ pkt.length)
    (hrun : extHdrLoop pkt (pkt.length + 1) (byteAt pkt 8, 40) = some r) : mldSnooping dst pkt =
      if r.1 = 0x3a then
        (pkt[2 + r.2]?).bind fun type =>
          if isSupportedMldMsg type then mldSwitch pkt (2 + r.2) type else some .ignored
      else some .ignored := by
  have hword : ntohsAt pkt 0 = some (wordAt pkt 0) := ntohsAt_eq (by omega)
  have hbyte : pkt[8]? = some (byteAt pkt 8) := getElem?_eq_byteAt (by omega)
  simp only [mldSnooping, isMldPkt, hword, hmac, hip, hbyte, hrun, bind_eq_bind,
    bind_some, Bool.not_true, Bool.false_eq_true, if_false, ne_eq, not_true]
  by_cases hicmp : r.1 = 0x3a
  swap
  · rw [if_neg hicmp, if_neg hicmp]
    rfl
  rw [if_pos hicmp, if_pos hicmp]
  cases pkt[2 + r.2]? with
  | none => rfl
  | some type =>
    simp only [bind_some]
    split
    · rfl
    · rfl

theorem mldMessage_isSome_iff (q : Nat) : ((pkt[q]?).bind fun type =>
        if isSupportedMldMsg type then mldSwitch pkt q type else some .ignored).isSome ↔
      q < pkt.length ∧ MldBodyInside pkt q (byteAt pkt q) := by
  by_cases htype : q < pkt.length
  swap
  · rw [getElem?_eq_none_of_le (Nat.not_lt.mp htype)]
    exact iff_of_false (by simp) fun h => htype h.1
  rw [getElem?_eq_byteAt htype, bind_some]
  by_cases hsupported : isSupportedMldMsg (byteAt pkt q) = true
  · rw [if_pos hsupported, mldSwitch_isSome_iff]
    exact ⟨fun h => ⟨htype, h⟩, And.right⟩
  · rw [if_neg hsupported]
    exact iff_of_true rfl ⟨htype, mldBodyInside_of_not_supported hsupported⟩

/-- **Which packets are read inside their bounds**: those whose lengths and counts stay inside. -/
theorem mldSnooping_isSome_iff : (mldSnooping dst pkt).isSome ↔ MldInside dst pkt := by
  by_cases hnumber : 2 ≤ pkt.length
  swap
  · refine iff_of_false ?_ fun h => hnumber h.number
    rw [mldSnooping, isMldPkt, ntohsAt_eq_none (by omega)]
    simp
  have hword : ntohsAt pkt 0 = some (wordAt pkt 0) := ntohsAt_eq hnumber
  by_cases hmac : isMldMacAddr dst = true
  swap
  · refine iff_of_true ?_ ⟨hnumber, fun h => absurd h hmac, fun h => absurd h hmac,
      fun h => absurd h hmac, fun h => absurd h hmac⟩
    simp [mldSnooping, isMldPkt, hword, hmac]
  by_cases hip : wordAt pkt 0 = ProtoType.ethPIpv6.number
  swap
  · refine iff_of_true ?_ ⟨hnumber, fun _ h => absurd h hip, fun _ h => absurd h hip,
      fun _ h => absurd h hip, fun _ h => absurd h hip⟩
    simp [mldSnooping, isMldPkt, hword, hmac, hip]
  by_cases hnext : 9 ≤ pkt.length
  swap
  · refine iff_of_false ?_ fun h => hnext (h.next hmac hip)
    have hnone : pkt[8]? = none := getElem?_eq_none_of_le (by omega)
    simp [mldSnooping, isMldPkt, hword, hmac, hip, hnone]
  have hloop : ExtHdrLoopRight pkt pkt.length (byteAt pkt 8, 40) := extHdrLoop_right (by omega)
  cases hrun : extHdrLoop pkt (pkt.length + 1) (byteAt pkt 8, 40) with
  | none =>
    have hbyte : pkt[8]? = some (byteAt pkt 8) := getElem?_eq_byteAt (by omega)
    refine iff_of_false ?_ fun h => ?_
    · simp [mldSnooping, isMldPkt, hword, hmac, hip, hbyte, hrun]
    · have hsome := hloop.inside.mpr (h.headers hmac hip)
      rw [hrun] at hsome
      exact absurd hsome (by simp)
  | some r =>
    have hheaders : ExtHdrsInside pkt (byteAt pkt 8, 40) :=
      hloop.inside.mp (by rw [hrun]; rfl)
    have hends := hloop.ends r hrun
    rw [mldSnooping_of_headers hmac hip hnext hrun]
    by_cases hicmp : r.1 = 0x3a
    swap
    · -- the walk ends at another header, and never is at the ICMPv6 header
      rw [if_neg hicmp]
      refine iff_of_true rfl ⟨hnumber, fun _ _ => hnext, fun _ _ => hheaders, fun _ _ k hk => ?_,
        fun _ _ k hk => ?_⟩
      · exact absurd ((hends.eq_of_icmpv6 hk) ▸ hk) hicmp
      · exact absurd ((hends.eq_of_icmpv6 hk) ▸ hk) hicmp
    rw [if_pos hicmp, mldMessage_isSome_iff]
    constructor
    · rintro ⟨htype, hbody⟩
      refine ⟨hnumber, fun _ _ => hnext, fun _ _ => hheaders, fun _ _ j hj => ?_,
        fun _ _ j hj => ?_⟩
      · rw [hends.eq_of_icmpv6 hj]
        exact htype
      · rw [hends.eq_of_icmpv6 hj]
        exact hbody
    · intro h
      -- the walk is at the ICMPv6 header after some number of headers
      obtain ⟨k, -, hk⟩ := id hends
      have hat : (extHdrNext pkt)^[k] (byteAt pkt 8, 40) = r :=
        (hk.resolve_right fun h => h.1 hicmp).symm
      have hicmp' : ((extHdrNext pkt)^[k] (byteAt pkt 8, 40)).1 = 0x3a := by rw [hat]; exact hicmp
      have htype := h.type hmac hip k hicmp'
      have hbody := h.body hmac hip k hicmp'
      rw [hat] at htype hbody
      exact ⟨htype, hbody⟩

end

end RalinkSdk.IgmpSnoop
