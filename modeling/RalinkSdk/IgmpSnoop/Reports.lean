import RalinkSdk.IgmpSnoop.Snooping
import RalinkSdk.Lib.Tlv

/-!
# Well-formed membership reports

IGMPv3 and MLDv2 reports as values, with their bytes on the wire.  A group record carries
addresses of sources and auxiliary data, whose length field counts words of four bytes.  The
code skips one byte for each of these words, so that it loses its way behind a record with
auxiliary data.
-/

namespace RalinkSdk.IgmpSnoop

open Lib List Option Nat
open BitVec (ofNat toNat_ofNat)

/-! ## Records -/

structure GroupRecord (addrLen : Nat) where
  recordType : FrameByte
  group : Fin addrLen → FrameByte
  sources : List (Fin addrLen → FrameByte)
  aux : List (Fin 4 → FrameByte)
  sources_lt : sources.length < 2 ^ 16
  aux_lt : aux.length < 2 ^ 8

/-- The bytes of equally long items. -/
def flat {n : Nat} (l : List (Fin n → FrameByte)) : List FrameByte := l.flatMap ofFn

@[simp] theorem length_flat {n : Nat} (l : List (Fin n → FrameByte)) :
    (flat l).length = l.length * n := by
  induction l with
  | nil => simp [flat]
  | cons a l ih =>
    rw [flat, flatMap_cons, length_append, ← flat, ih, length_ofFn,
      length_cons, Nat.succ_mul, Nat.add_comm]

def GroupRecord.encode {n : Nat} (r : GroupRecord n) : List FrameByte :=
  [r.recordType, ofNat 8 r.aux.length] ++ be16 (ofNat 16 r.sources.length) ++
    (ofFn r.group ++ (flat r.sources ++ flat r.aux))

@[simp] theorem GroupRecord.length_encode {n : Nat} (r : GroupRecord n) :
    r.encode.length = 4 + n + r.sources.length * n + r.aux.length * 4 := by
  simp [encode, be16]
  omega

def groupMac : (protoType : ProtoType) → (Fin protoType.addrLen → FrameByte) → MacAddr
  | .ethPIp, g =>
    let g : Fin 4 → FrameByte := g
    ![0x01, 0x00, 0x5e, g 1 &&& 0x7f, g 2, g 3]
  | .ethPIpv6, g =>
    let g : Fin 16 → FrameByte := g
    ![0x33, 0x33, g 12, g 13, g 14, g 15]

variable {protoType : ProtoType}

def GroupRecord.processed (r : GroupRecord protoType.addrLen) (p : Nat) : Processed where
  pGroup := p
  groupType := r.recordType
  numOfSources := ofNat 16 r.sources.length
  groupMacAddr := groupMac protoType r.group

/-- The records one after the other from `p` on, each processed once. -/
def processedFrom : Nat → List (GroupRecord protoType.addrLen) → List Processed
  | _, [] => []
  | p, r :: records => r.processed p :: processedFrom (p + r.encode.length) records

/-- No record but the last carries auxiliary data. -/
def AuxOnlyLast {n : Nat} (records : List (GroupRecord n)) : Prop :=
  ∀ r ∈ records.dropLast, r.aux = []

section

variable {pre suf : List FrameByte} {pkt : List FrameByte}

theorem getElem?_append_add (l : List FrameByte) (i : Nat) :
    (pre ++ l)[pre.length + i]? = l[i]? := by
  rw [getElem?_append_right (Nat.le_add_right _ _), Nat.add_sub_cancel_left]

theorem convertMulticastIp2Mac_append (g : Fin protoType.addrLen → FrameByte) :
    convertMulticastIp2Mac protoType (pre ++ (ofFn g ++ suf)) pre.length =
      some (groupMac protoType g) := by
  have hread : ∀ i : Fin protoType.addrLen,
      (pre ++ (ofFn g ++ suf))[pre.length + i]? = some (g i) := by
    intro i
    rw [getElem?_append_add, getElem?_append_left (by simp)]
    simp
  cases protoType with
  | ethPIp =>
    have h1 : (pre ++ (ofFn g ++ suf))[pre.length + 1]? = some (g (1 : Fin 4)) :=
      hread (1 : Fin 4)
    have h2 : (pre ++ (ofFn g ++ suf))[pre.length + 2]? = some (g (2 : Fin 4)) :=
      hread (2 : Fin 4)
    have h3 : (pre ++ (ofFn g ++ suf))[pre.length + 3]? = some (g (3 : Fin 4)) :=
      hread (3 : Fin 4)
    rw [convertMulticastIp2Mac, h1, h2, h3]
    rfl
  | ethPIpv6 =>
    have h12 : (pre ++ (ofFn g ++ suf))[pre.length + 12]? = some (g (12 : Fin 16)) :=
      hread (12 : Fin 16)
    have h13 : (pre ++ (ofFn g ++ suf))[pre.length + 13]? = some (g (13 : Fin 16)) :=
      hread (13 : Fin 16)
    have h14 : (pre ++ (ofFn g ++ suf))[pre.length + 14]? = some (g (14 : Fin 16)) :=
      hread (14 : Fin 16)
    have h15 : (pre ++ (ofFn g ++ suf))[pre.length + 15]? = some (g (15 : Fin 16)) :=
      hread (15 : Fin 16)
    rw [convertMulticastIp2Mac, h12, h13, h14, h15]
    rfl

theorem ntohsAt_append (x : BitVec 16) : ntohsAt (pre ++ (be16 x ++ suf)) pre.length = some x := by
  have hhi : (pre ++ (be16 x ++ suf))[pre.length]? = some (x.extractLsb' 8 8) :=
    getElem?_append_add (be16 x ++ suf) 0
  have hlo : (pre ++ (be16 x ++ suf))[pre.length + 1]? = some (x.extractLsb' 0 8) :=
    getElem?_append_add (be16 x ++ suf) 1
  rw [ntohsAt, hhi, hlo]
  exact congrArg some (append_be16 x)

/-- Where the code looks for the record behind this one: four bytes of auxiliary data count as
    one. -/
def GroupRecord.nextAt {n : Nat} (r : GroupRecord n) (p : Nat) : Nat :=
  p + (4 + n + r.sources.length * n + r.aux.length)

theorem GroupRecord.nextAt_eq_iff {n : Nat} (r : GroupRecord n) (p : Nat) :
    r.nextAt p = p + r.encode.length ↔ r.aux = [] := by
  rw [GroupRecord.nextAt, GroupRecord.length_encode, ← length_eq_zero_iff]
  omega

theorem groupRecord_encode (r : GroupRecord protoType.addrLen) :
    groupRecord protoType (pre ++ (r.encode ++ suf)) pre.length =
      some (r.processed pre.length, r.nextAt pre.length) := by
  have htype : (pre ++ (r.encode ++ suf))[pre.length]? = some r.recordType :=
    getElem?_append_add (r.encode ++ suf) 0
  have haux : (pre ++ (r.encode ++ suf))[pre.length + 1]? =
      some (ofNat 8 r.aux.length) :=
    getElem?_append_add (r.encode ++ suf) 1
  -- the packet around the number of sources, and around the address
  have hcount : ntohsAt (pre ++ (r.encode ++ suf)) (pre.length + 2) =
      some (ofNat 16 r.sources.length) := by
    have h : ntohsAt ((pre ++ [r.recordType, ofNat 8 r.aux.length]) ++
        (be16 (ofNat 16 r.sources.length) ++
          (ofFn r.group ++ (flat r.sources ++ flat r.aux) ++ suf)))
        (pre ++ [r.recordType, ofNat 8 r.aux.length]).length = _ := ntohsAt_append _
    simpa [GroupRecord.encode] using h
  have hgroup : convertMulticastIp2Mac protoType (pre ++ (r.encode ++ suf)) (pre.length + 4) =
      some (groupMac protoType r.group) := by
    have h : convertMulticastIp2Mac protoType
        ((pre ++ ([r.recordType, ofNat 8 r.aux.length] ++
            be16 (ofNat 16 r.sources.length))) ++
          (ofFn r.group ++ (flat r.sources ++ flat r.aux ++ suf)))
        (pre ++ ([r.recordType, ofNat 8 r.aux.length] ++
          be16 (ofNat 16 r.sources.length))).length = _ :=
      convertMulticastIp2Mac_append r.group
    simpa [GroupRecord.encode, be16] using h
  have hsources : (ofNat 16 r.sources.length).toNat = r.sources.length := by
    rw [toNat_ofNat, mod_eq_of_lt r.sources_lt]
  have hauxlen : (ofNat 8 r.aux.length).toNat = r.aux.length := by
    rw [toNat_ofNat, mod_eq_of_lt r.aux_lt]
  rw [groupRecord, htype, haux, hcount, hgroup]
  simp only [bind_eq_bind, bind_some, hsources, hauxlen]
  rfl

theorem bind_cons_eq_some_iff {α : Type} {x : Option (List α)} {a : α} {l : List α} :
    (x.bind fun rest => some (a :: rest)) = some (a :: l) ↔ x = some l := by
  cases x with
  | none => simp
  | some rest => simp

theorem head_groupRecords {n p : Nat} {l : List Processed}
    (h : groupRecords protoType pkt (n + 1) p = some l) :
    l.head?.map Processed.pGroup = some p := by
  simp only [groupRecords, bind_eq_bind, bind_eq_some_iff, some.injEq] at h
  obtain ⟨out, hout, rest, -, rfl⟩ := h
  simp only [groupRecord, bind_eq_bind, bind_eq_some_iff, some.injEq] at hout
  obtain ⟨_, _, _, _, _, _, _, _, rfl⟩ := hout
  rfl

/-- **The walk along the records**: it comes to each of them, once and in order, exactly when
    none but the last carries auxiliary data. -/
theorem groupRecords_encode_iff (records : List (GroupRecord protoType.addrLen)) :
    groupRecords protoType (pre ++ (records.flatMap GroupRecord.encode ++ suf)) records.length
        pre.length = some (processedFrom pre.length records) ↔ AuxOnlyLast records := by
  induction records generalizing pre with
  | nil => exact iff_of_true rfl (by simp [AuxOnlyLast])
  | cons r records ih =>
    have hpkt : pre ++ ((r :: records).flatMap GroupRecord.encode ++ suf) =
        pre ++ (r.encode ++ (records.flatMap GroupRecord.encode ++ suf)) := by
      rw [flatMap_cons, append_assoc]
    -- the first record is read; what counts is where the others are looked for
    have hfirst : groupRecords protoType (pre ++ ((r :: records).flatMap GroupRecord.encode ++ suf))
          (r :: records).length pre.length = some (processedFrom pre.length (r :: records)) ↔
        groupRecords protoType (pre ++ ((r :: records).flatMap GroupRecord.encode ++ suf))
          records.length (r.nextAt pre.length) =
            some (processedFrom (pre.length + r.encode.length) records) := by
      rw [length_cons, groupRecords, hpkt, groupRecord_encode, processedFrom]
      exact bind_cons_eq_some_iff
    rw [hfirst]
    cases records with
    | nil => exact iff_of_true rfl (by simp [AuxOnlyLast])
    | cons r' records =>
      by_cases haux : r.aux = []
      · have hnext := (r.nextAt_eq_iff pre.length).mpr haux
        have hmoved := @ih (pre ++ r.encode)
        rw [length_append] at hmoved
        rw [hnext, hpkt, ← append_assoc, hmoved]
        simp [AuxOnlyLast, haux]
      · -- behind auxiliary data the loop is not where the next record lies
        refine iff_of_false ?_ fun hall => haux (hall r (by simp))
        intro hrun
        have hhead := head_groupRecords hrun
        have hplace : pre.length + r.encode.length = r.nextAt pre.length := some.inj hhead
        exact haux ((r.nextAt_eq_iff pre.length).mp hplace.symm)

end

/-! ## Reports -/

/-- The bytes from the type of a report on: the five bytes behind it, the number of records, the
    records, and what else is in the packet. -/
def encodeGroups (type : FrameByte) (head : Fin 5 → FrameByte)
    (records : List (GroupRecord protoType.addrLen)) (rest : List FrameByte) : List FrameByte :=
  type :: ofFn head ++
    (be16 (ofNat 16 records.length) ++ (records.flatMap GroupRecord.encode ++ rest))

/-- A version 3 membership report in its frame. -/
structure Igmpv3Report where
  pDstMacAddr : MacAddr
  igmpMac : isIgmpMacAddr pDstMacAddr = true
  ipHeader : List FrameByte
  ihl : ipHeader.length = (byteAt ipHeader 0 &&& 0x0f).toNat * 4
  ipHeader_ge : 20 ≤ ipHeader.length
  protocol : byteAt ipHeader 9 = 0x02
  head : Fin 5 → FrameByte
  records : List (GroupRecord ProtoType.ethPIp.addrLen)
  records_lt : records.length < 2 ^ 16
  rest : List FrameByte

/-- The bytes of the report, from the protocol number on. -/
def Igmpv3Report.encode (r : Igmpv3Report) : List FrameByte :=
  be16 ProtoType.ethPIp.number ++ r.ipHeader ++ encodeGroups 0x22 r.head r.records r.rest

/-- The records where they lie in the packet. -/
def Igmpv3Report.processed (r : Igmpv3Report) : List Processed :=
  processedFrom (2 + r.ipHeader.length + 8) r.records

/-- An IPv6 extension header, behind the number that says what it is. -/
structure ExtHdr where
  proto : FrameByte
  isExt : isExtHdr proto = true
  extHdrLen : FrameByte
  octets : List FrameByte
  length_octets : octets.length + 2 =
    if isSizedExtHdr proto then (extHdrLen.toNat + 1) * 8 else 8

/-- The number of the first of the headers before an ICMPv6 header. -/
def firstProto : List ExtHdr → FrameByte
  | [] => 0x3a
  | h :: _ => h.proto

/-- The bytes of the extension headers before an ICMPv6 header. -/
def encodeExtHdrs : List ExtHdr → List FrameByte
  | [] => []
  | h :: exts => firstProto exts :: h.extHdrLen :: h.octets ++ encodeExtHdrs exts

/-- A version 2 listener report in its frame; `before` and `behind` are the bytes of the IPv6
    header around the number of the next header. -/
structure Mldv2Report where
  pDstMacAddr : MacAddr
  mldMac : isMldMacAddr pDstMacAddr = true
  before : Fin 6 → FrameByte
  behind : Fin 33 → FrameByte
  exts : List ExtHdr
  head : Fin 5 → FrameByte
  records : List (GroupRecord ProtoType.ethPIpv6.addrLen)
  records_lt : records.length < 2 ^ 16
  rest : List FrameByte

def Mldv2Report.ipv6Header (r : Mldv2Report) : List FrameByte :=
  be16 ProtoType.ethPIpv6.number ++ ofFn r.before ++ [firstProto r.exts] ++ ofFn r.behind

/-- The bytes of the report, from the protocol number on. -/
def Mldv2Report.encode (r : Mldv2Report) : List FrameByte :=
  r.ipv6Header ++ encodeExtHdrs r.exts ++ encodeGroups 143 r.head r.records r.rest

/-- The records where they lie in the packet. -/
def Mldv2Report.processed (r : Mldv2Report) : List Processed :=
  processedFrom (42 + (encodeExtHdrs r.exts).length + 8) r.records

section

variable {pre suf : List FrameByte} {p : Nat}

/-- **A report with records** behind any header. -/
theorem groupReport_encode_iff (type : FrameByte) (head : Fin 5 → FrameByte)
    (records : List (GroupRecord protoType.addrLen)) (rest : List FrameByte)
    (hcount : records.length < 2 ^ 16) :
    groupReport protoType (pre ++ encodeGroups type head records rest) pre.length =
      some (.groups (processedFrom (pre.length + 8) records)) ↔ AuxOnlyLast records := by
  -- the packet around the number of records, and around the records
  have hnum : ntohsAt (pre ++ encodeGroups type head records rest) (pre.length + 6) =
      some (ofNat 16 records.length) := by
    have h : ntohsAt ((pre ++ (type :: ofFn head)) ++
        (be16 (ofNat 16 records.length) ++ (records.flatMap GroupRecord.encode ++ rest)))
        (pre ++ (type :: ofFn head)).length = _ := ntohsAt_append _
    simpa [encodeGroups] using h
  have hwalk : groupRecords protoType (pre ++ encodeGroups type head records rest) records.length
        (pre.length + 8) = some (processedFrom (pre.length + 8) records) ↔
      AuxOnlyLast records := by
    have hlen : (pre ++ (type :: ofFn head ++
        be16 (ofNat 16 records.length))).length = pre.length + 8 := by
      simp [be16]
    have h := @groupRecords_encode_iff protoType (pre ++ (type :: ofFn head ++
      be16 (ofNat 16 records.length))) rest records
    rw [hlen] at h
    rw [← h, encodeGroups, append_assoc, append_assoc]
  have htoNat : (ofNat 16 records.length).toNat = records.length := by
    rw [toNat_ofNat, mod_eq_of_lt hcount]
  rw [← hwalk, groupReport, hnum, bind_eq_bind, bind_some, htoNat]
  cases groupRecords protoType (pre ++ encodeGroups type head records rest) records.length
    (pre.length + 8) with
  | none => simp
  | some l => simp

theorem length_encodeExtHdrs_ge (exts : List ExtHdr) :
    exts.length ≤ (encodeExtHdrs exts).length := by
  induction exts with
  | nil => exact Nat.le_refl _
  | cons h exts ih =>
    simp only [encodeExtHdrs, length_cons, length_append]
    omega

/-- The bytes of an extension header before those that follow. -/
def ExtHdr.encode (h : ExtHdr) (next : FrameByte) : List FrameByte :=
  next :: h.extHdrLen :: h.octets

theorem ipv6ExtHdrHandle_encode (h : ExtHdr) (next : FrameByte) :
    ipv6ExtHdrHandle (pre ++ (h.encode next ++ suf)) pre.length h.proto =
      some (true, next, (h.encode next).length) := by
  have hnext : (pre ++ (h.encode next ++ suf))[pre.length]? = some next :=
    getElem?_append_add (h.encode next ++ suf) 0
  have hlen : (pre ++ (h.encode next ++ suf))[pre.length + 1]? = some h.extHdrLen :=
    getElem?_append_add (h.encode next ++ suf) 1
  have hoctets : (h.encode next).length = h.octets.length + 2 := rfl
  rw [hoctets, h.length_octets]
  by_cases hsized : isSizedExtHdr h.proto = true
  · rw [ipv6ExtHdrHandle, if_pos hsized, if_pos hsized, hnext, hlen]
    rfl
  · have hfragment : h.proto = 0x2c := by
      simpa [isExtHdr, Bool.not_eq_true _ ▸ hsized] using h.isExt
    rw [ipv6ExtHdrHandle, if_neg hsized, if_neg hsized, if_pos hfragment, hnext]
    rfl

/-- **The extension headers** are skipped one by one. -/
theorem extHdrLoop_encode (exts : List ExtHdr) {fuel off : Nat} (hpre : pre.length = 2 + off)
    (hfuel : exts.length < fuel) :
    extHdrLoop (pre ++ (encodeExtHdrs exts ++ suf)) fuel (firstProto exts, off) =
      some (0x3a, off + (encodeExtHdrs exts).length) := by
  induction exts generalizing pre fuel off with
  | nil =>
    obtain ⟨fuel, rfl⟩ := exists_eq_add_one_of_ne_zero (Nat.ne_zero_of_lt hfuel)
    rfl
  | cons h exts ih =>
    obtain ⟨fuel, rfl⟩ := exists_eq_add_one_of_ne_zero (Nat.ne_zero_of_lt hfuel)
    have hpkt : pre ++ (encodeExtHdrs (h :: exts) ++ suf) =
        pre ++ (h.encode (firstProto exts) ++ (encodeExtHdrs exts ++ suf)) := by
      simp [encodeExtHdrs, ExtHdr.encode]
    have hrest := @ih (pre ++ h.encode (firstProto exts)) fuel
      (off + (h.encode (firstProto exts)).length)
      (by rw [length_append, hpre, Nat.add_assoc]) (by simpa using hfuel)
    rw [append_assoc] at hrest
    have hicmp : h.proto ≠ 0x3a := @extHdr_ne_icmpv6 (h.proto, off) h.isExt
    rw [hpkt, firstProto, extHdrLoop, if_neg hicmp, ← hpre, ipv6ExtHdrHandle_encode]
    simp only [bind_eq_bind, bind_some, if_true]
    rw [hrest]
    simp [encodeExtHdrs, ExtHdr.encode]
    omega

end

/-! ## Whole packets -/

theorem Igmpv3Report.snooping_eq (r : Igmpv3Report) : igmpSnooping r.pDstMacAddr r.encode =
      groupReport .ethPIp r.encode (2 + r.ipHeader.length) := by
  have hlen : 20 ≤ r.ipHeader.length := r.ipHeader_ge
  have hnumber : ntohsAt r.encode 0 = some ProtoType.ethPIp.number := by
    have h : ntohsAt ([] ++ (be16 ProtoType.ethPIp.number ++
        (r.ipHeader ++ encodeGroups 0x22 r.head r.records r.rest))) ([] : List FrameByte).length =
      _ := ntohsAt_append _
    simpa [Igmpv3Report.encode] using h
  -- a byte of the IP header
  have hip : ∀ i < r.ipHeader.length, r.encode[2 + i]? = some (byteAt r.ipHeader i) := by
    intro i hi
    have h : (be16 ProtoType.ethPIp.number ++
        (r.ipHeader ++ encodeGroups 0x22 r.head r.records r.rest))[2 + i]? =
      (r.ipHeader ++ encodeGroups 0x22 r.head r.records r.rest)[i]? := getElem?_append_add _ i
    rw [Igmpv3Report.encode, append_assoc, h, getElem?_append_left hi, getElem?_eq_byteAt hi]
  have htype : r.encode[2 + r.ipHeader.length]? = some 0x22 := by
    have h := @getElem?_append_add (be16 ProtoType.ethPIp.number ++ r.ipHeader)
      (encodeGroups 0x22 r.head r.records r.rest) 0
    rw [length_append] at h
    exact h
  have hprotocol : r.encode[11]? = some 0x02 := by
    rw [← r.protocol]
    exact hip 9 (by omega)
  have hpkt : isIgmpPkt r.pDstMacAddr r.encode = some true := by
    simp [isIgmpPkt, hnumber, r.igmpMac, hprotocol]
  have hihl : r.encode[2]? = some (byteAt r.ipHeader 0) := hip 0 (by omega)
  rw [igmpSnooping, hpkt]
  simp only [bind_eq_bind, bind_some, if_true]
  rw [hihl, bind_some, ← r.ihl, htype]
  rfl

theorem Mldv2Report.length_ipv6Header (r : Mldv2Report) : r.ipv6Header.length = 42 := by
  simp [ipv6Header, be16]

theorem Mldv2Report.snooping_eq (r : Mldv2Report) : mldSnooping r.pDstMacAddr r.encode =
      groupReport .ethPIpv6 r.encode (42 + (encodeExtHdrs r.exts).length) := by
  have hnumber : ntohsAt r.encode 0 = some ProtoType.ethPIpv6.number := by
    have h : ntohsAt ([] ++ (be16 ProtoType.ethPIpv6.number ++
        (ofFn r.before ++ ([firstProto r.exts] ++ (ofFn r.behind ++
          (encodeExtHdrs r.exts ++ encodeGroups 143 r.head r.records r.rest))))))
        ([] : List FrameByte).length = _ := ntohsAt_append _
    simpa [Mldv2Report.encode, Mldv2Report.ipv6Header] using h
  have hnext : r.encode[8]? = some (firstProto r.exts) := by
    simp [Mldv2Report.encode, Mldv2Report.ipv6Header, be16]
  -- every extension header has bytes of its own
  have hfuel : r.exts.length < r.encode.length + 1 := by
    have hge := length_encodeExtHdrs_ge r.exts
    simp only [Mldv2Report.encode, length_append]
    omega
  have hloop : extHdrLoop r.encode (r.encode.length + 1) (firstProto r.exts, 40) =
      some (0x3a, 40 + (encodeExtHdrs r.exts).length) := by
    have h := @extHdrLoop_encode r.ipv6Header
      (encodeGroups 143 r.head r.records r.rest) r.exts (r.encode.length + 1) 40
      r.length_ipv6Header hfuel
    rw [← append_assoc] at h
    exact h
  have htype : r.encode[2 + (40 + (encodeExtHdrs r.exts).length)]? = some 143 := by
    have h := @getElem?_append_add (r.ipv6Header ++ encodeExtHdrs r.exts)
      (encodeGroups 143 r.head r.records r.rest) 0
    rw [length_append, r.length_ipv6Header] at h
    rw [← Nat.add_assoc]
    exact h
  -- all tests of `isMldPkt` pass
  have hpkt : isMldPkt r.pDstMacAddr r.encode =
      some (some (143, 42 + (encodeExtHdrs r.exts).length)) := by
    rw [isMldPkt, hnumber]
    simp only [bind_eq_bind, bind_some, r.mldMac, Bool.not_true,
      Bool.false_eq_true, if_false, ne_eq, not_true_eq_false]
    rw [hnext, bind_some, hloop, bind_some, if_pos rfl, htype, bind_some,
      if_pos (by decide), ← Nat.add_assoc]
  rw [mldSnooping, hpkt]
  rfl

/-- **Membership reports**: a report is processed record by record, each once and in order,
    exactly when none of its records but the last carries auxiliary data; and a packet is read
    inside its bounds exactly when its lengths and counts stay inside. -/
theorem snooping_iff (pDstMacAddr : MacAddr) (pkt : List FrameByte) :
    (∀ r : Igmpv3Report, igmpSnooping r.pDstMacAddr r.encode = some (.groups r.processed) ↔
      AuxOnlyLast r.records) ∧
    (∀ r : Mldv2Report, mldSnooping r.pDstMacAddr r.encode = some (.groups r.processed) ↔
      AuxOnlyLast r.records) ∧
    ((igmpSnooping pDstMacAddr pkt).isSome ↔ IgmpInside pDstMacAddr pkt) ∧
    ((mldSnooping pDstMacAddr pkt).isSome ↔ MldInside pDstMacAddr pkt) := by
  refine ⟨fun r => ?_, fun r => ?_, igmpSnooping_isSome_iff, mldSnooping_isSome_iff⟩
  · have hlen : (be16 ProtoType.ethPIp.number ++ r.ipHeader).length = 2 + r.ipHeader.length := by
      rw [List.length_append]
      rfl
    have h := @groupReport_encode_iff .ethPIp (be16 ProtoType.ethPIp.number ++ r.ipHeader) 0x22
      r.head r.records r.rest r.records_lt
    rw [hlen] at h
    rw [r.snooping_eq]
    exact h
  · have hlen : (r.ipv6Header ++ encodeExtHdrs r.exts).length =
        42 + (encodeExtHdrs r.exts).length := by
      rw [List.length_append, r.length_ipv6Header]
    have h := @groupReport_encode_iff .ethPIpv6 (r.ipv6Header ++ encodeExtHdrs r.exts) 143
      r.head r.records r.rest r.records_lt
    rw [hlen] at h
    rw [r.snooping_eq]
    exact h

/-- A record that joins a group, with one word of auxiliary data and no sources. -/
def recordWithAux : GroupRecord ProtoType.ethPIp.addrLen where
  recordType := 4
  group := ![224, 1, 2, 3]
  sources := []
  aux := [![0, 0, 0, 0]]
  sources_lt := by decide
  aux_lt := by decide

/-- A report of two such records. -/
def reportWithAux : Igmpv3Report where
  pDstMacAddr := ![0x01, 0x00, 0x5e, 0x00, 0x00, 0x16]
  igmpMac := by decide
  ipHeader := [0x45, 0, 0, 52, 0, 0, 0, 0, 1, 2, 0, 0, 192, 168, 1, 2, 224, 0, 0, 22]
  ihl := by decide
  ipHeader_ge := by decide
  protocol := by decide
  head := ![0, 0, 0, 0, 0]
  records := [recordWithAux, recordWithAux]
  records_lt := by decide
  rest := []

/-- Behind auxiliary data the next record is not found. -/
theorem not_snooping_report_with_aux :
    ¬ ((∀ r : Igmpv3Report, igmpSnooping r.pDstMacAddr r.encode = some (.groups r.processed)) ∧
      (∀ r : Mldv2Report, mldSnooping r.pDstMacAddr r.encode = some (.groups r.processed)) ∧
      (∀ (pDstMacAddr : MacAddr) (pkt : List FrameByte),
        (igmpSnooping pDstMacAddr pkt).isSome) ∧
      (∀ (pDstMacAddr : MacAddr) (pkt : List FrameByte),
        (mldSnooping pDstMacAddr pkt).isSome)) := by
  rintro ⟨hreport, -, -, -⟩
  have hrun := hreport reportWithAux
  revert hrun
  decide +kernel

end RalinkSdk.IgmpSnoop
