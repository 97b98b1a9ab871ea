import Mathlib.Order.Interval.Finset.Nat
import RalinkSdk.RxData.Deaggregate

/-!
# Splitting a Ralink aggregate

`CmmRxRalinkFrameIndicate` of `common/cmm_data.c`.  The length of the second MSDU is compared with
the size of the data before two bytes of length field, and perhaps 8 bytes of LLC/SNAP, are taken
from that size, and it is never compared with the header it includes.  `AP_ARalink_Frame_Tx` of
`ap/ap_data.c` builds what is split.

## Conventions

- Positions are addresses.  Whether there is memory for the second packet is a parameter; the VLAN
  tag that may be put into the copies is left out.
-/

namespace RalinkSdk.RxData

open Lib List Option

/-! ## The function -/

/-- The two packets handed up: the first is `header1` in front of `Payload1Size` bytes at
    `pRxBlk->pData`, the second is copied from 14 bytes in front of `pData2` and `Payload2Size`
    bytes at it. -/
structure Indicated where
  header1 : List (BitVec 8)
  pData1 : Nat
  payload1Size : BitVec 16
  pData2 : Nat
  payload2Size : BitVec 16
  deriving DecidableEq

/-- `Msdu2Size` -/
def msdu2SizeAt (mem : Bytes) (pData : Nat) : BitVec 16 :=
  (mem pData).setWidth 16 + (mem (pData + 1)).setWidth 16 <<< 8

/-- `none`: the received packet is released. -/
def cmmRxRalinkFrameIndicate (mem : Bytes) (pDA pSA : List (BitVec 8)) (packet2Memory : Bool)
    (pData : Nat) (dataSize : BitVec 16) : Option Indicated :=
  let msdu2Size := msdu2SizeAt mem pData
  if msdu2Size ≤ 1536 ∧ msdu2Size < dataSize then
    let c := convertTo8023 mem pDA pSA (pData + 2) (dataSize - 2)
    let payload1Size := c.dataSize - msdu2Size
    let payload2Size := msdu2Size - 14
    if packet2Memory then
      some ⟨c.header, c.pData, payload1Size, c.pData + payload1Size.toNat + 14, payload2Size⟩
    else none
  else none

/-! ## What a split has to be -/

section

variable (mem : Bytes) (pData : Nat) (dataSize : BitVec 16)

/-- How many bytes go in front of the first payload: the length field and the LLC/SNAP header. -/
def encapsulation : Nat := 2 + if LlcSnapAt mem (pData + 2) then 8 else 0

/-- The positions of the received data. -/
def received : Finset Nat := Finset.Ico pData (pData + dataSize.toNat)

/-- The type field of the first header is copied from the LLC/SNAP header, if that is removed. -/
def typeField : Finset Nat :=
  if LlcSnapAt mem (pData + 2) then Finset.Ico (pData + 8) (pData + 10) else ∅

namespace Indicated

variable (o : Indicated)

def payload1 : Finset Nat := Finset.Ico o.pData1 (o.pData1 + o.payload1Size.toNat)

def header2 : Finset Nat := Finset.Ico (o.pData2 - 14) o.pData2

def payload2 : Finset Nat := Finset.Ico o.pData2 (o.pData2 + o.payload2Size.toNat)

/-- The packets lie in the received data, do not overlap, and are all of it behind the length
    field and the removed header; the subtractions did not go below 0. -/
structure Splits : Prop where
  typeField_inside : typeField mem pData ⊆ received pData dataSize
  payload1_inside : o.payload1 ⊆ received pData dataSize
  header2_inside : o.header2 ⊆ received pData dataSize
  payload2_inside : o.payload2 ⊆ received pData dataSize
  payload1_header2 : Disjoint o.payload1 o.header2
  payload1_payload2 : Disjoint o.payload1 o.payload2
  header2_payload2 : Disjoint o.header2 o.payload2
  covers : Finset.Ico pData (pData + encapsulation mem pData) ∪
    (o.payload1 ∪ (o.header2 ∪ o.payload2)) = received pData dataSize
  payload1_nowrap : o.payload1Size.toNat + (msdu2SizeAt mem pData).toNat + encapsulation mem pData =
    dataSize.toNat
  payload2_nowrap : o.payload2Size.toNat + 14 = (msdu2SizeAt mem pData).toNat

end Indicated

/-- The second MSDU holds a header, and it fits behind what is taken off. -/
def SecondFits : Prop :=
  14 ≤ (msdu2SizeAt mem pData).toNat ∧
    (msdu2SizeAt mem pData).toNat + encapsulation mem pData ≤ dataSize.toNat

end

/-! ## When the split is right -/

section

variable {mem : Bytes} {pDA pSA : List (BitVec 8)} {packet2Memory : Bool} {pData : Nat}
  {dataSize : BitVec 16} {o : Indicated}

theorem eq_some_of_indicate
    (h : cmmRxRalinkFrameIndicate mem pDA pSA packet2Memory pData dataSize = some o) :
    (msdu2SizeAt mem pData ≤ 1536 ∧ msdu2SizeAt mem pData < dataSize) ∧ packet2Memory = true ∧
      o.pData1 = pData + encapsulation mem pData ∧
      o.payload1Size =
        dataSize - BitVec.ofNat 16 (encapsulation mem pData) - msdu2SizeAt mem pData ∧
      o.pData2 = o.pData1 + o.payload1Size.toNat + 14 ∧
      o.payload2Size = msdu2SizeAt mem pData - 14 := by
  unfold cmmRxRalinkFrameIndicate at h
  obtain ⟨hcheck, hrest⟩ := ite_none_right_eq_some.mp h
  obtain ⟨hmem, hout⟩ := ite_none_right_eq_some.mp hrest
  obtain rfl := Option.some.inj hout
  refine ⟨hcheck, hmem, ?_⟩
  by_cases hllc : LlcSnapAt mem (pData + 2)
  · have henc : encapsulation mem pData = 10 := by rw [encapsulation, if_pos hllc]
    rw [henc, convertTo8023_of_removes hllc]
    exact ⟨rfl, by bv_omega, rfl, rfl⟩
  · have henc : encapsulation mem pData = 2 := by rw [encapsulation, if_neg hllc]
    rw [henc, convertTo8023_of_keeps hllc]
    exact ⟨rfl, rfl, rfl, rfl⟩

theorem encapsulation_le : encapsulation mem pData ≤ 10 := by
  unfold encapsulation
  split <;> omega

theorem typeField_subset (h : SecondFits mem pData dataSize) :
    typeField mem pData ⊆ received pData dataSize := by
  unfold typeField
  split
  · next hllc =>
    have henc : encapsulation mem pData = 10 := by rw [encapsulation, if_pos hllc]
    have hfits := h.2
    exact Finset.Ico_subset_Ico (by omega) (by omega)
  · exact Finset.empty_subset _

section

variable (h : SecondFits mem pData dataSize)
  (hout : cmmRxRalinkFrameIndicate mem pDA pSA packet2Memory pData dataSize = some o)

include h hout

theorem sizes_of_secondFits :
    o.payload1Size.toNat + (msdu2SizeAt mem pData).toNat + encapsulation mem pData =
      dataSize.toNat ∧ o.payload2Size.toNat + 14 = (msdu2SizeAt mem pData).toNat := by
  obtain ⟨-, -, -, hsize1, -, hsize2⟩ := eq_some_of_indicate hout
  obtain ⟨hheader, hfits⟩ := h
  have henc : encapsulation mem pData ≤ 10 := encapsulation_le
  rw [hsize1, hsize2]
  constructor
  · bv_omega
  · bv_omega

theorem splits_of_secondFits : o.Splits mem pData dataSize := by
  obtain ⟨hsize1, hsize2⟩ := sizes_of_secondFits h hout
  obtain ⟨-, -, hdata1, -, hdata2, -⟩ := eq_some_of_indicate hout
  have hback : o.pData2 - 14 = o.pData1 + o.payload1Size.toNat := by omega
  have hend : o.pData2 + o.payload2Size.toNat = pData + dataSize.toNat := by omega
  refine ⟨typeField_subset h, ?_, ?_, ?_, ?_, ?_, ?_, ?_, hsize1, hsize2⟩
  · exact Finset.Ico_subset_Ico (by omega) (by omega)
  · exact Finset.Ico_subset_Ico (by omega) (by omega)
  · exact Finset.Ico_subset_Ico (by omega) hend.le
  · rw [Indicated.header2, hback]
    exact Finset.Ico_disjoint_Ico_consecutive _ _ _
  · apply (Finset.Ico_disjoint_Ico_consecutive _ _ _).mono_right
    exact Finset.Ico_subset_Ico_left (by omega)
  · exact Finset.Ico_disjoint_Ico_consecutive _ _ _
  · -- one interval after the other
    unfold Indicated.payload1 Indicated.header2 Indicated.payload2 received
    rw [hback, Finset.Ico_union_Ico_eq_Ico (by omega) (by omega), hdata1,
      Finset.Ico_union_Ico_eq_Ico (by omega) (by omega),
      Finset.Ico_union_Ico_eq_Ico (by omega) (by omega), hend]

end

/-- **Splitting an aggregate**: what is handed up is right exactly for the frames that are
    released, and those whose second MSDU holds a header and fits behind the encapsulation. -/
theorem splits_iff (mem : Bytes) (pDA pSA : List (BitVec 8)) (packet2Memory : Bool) (pData : Nat)
    (dataSize : BitVec 16) :
    (∀ o, cmmRxRalinkFrameIndicate mem pDA pSA packet2Memory pData dataSize = some o →
      o.Splits mem pData dataSize) ↔
    ¬(msdu2SizeAt mem pData ≤ 1536 ∧ msdu2SizeAt mem pData < dataSize) ∨ packet2Memory = false ∨
      SecondFits mem pData dataSize := by
  constructor
  · intro hsplits
    by_cases hcheck : msdu2SizeAt mem pData ≤ 1536 ∧ msdu2SizeAt mem pData < dataSize
    · cases packet2Memory with
      | false => exact Or.inr (Or.inl rfl)
      | true =>
        obtain ⟨o, hout⟩ : ∃ o, cmmRxRalinkFrameIndicate mem pDA pSA true pData dataSize =
            some o := by
          unfold cmmRxRalinkFrameIndicate
          exact ⟨_, if_pos hcheck⟩
        obtain ⟨hsize1, hsize2⟩ := And.intro (hsplits o hout).payload1_nowrap
          (hsplits o hout).payload2_nowrap
        exact Or.inr (Or.inr ⟨by omega, by omega⟩)
    · exact Or.inl hcheck
  · rintro (hcheck | rfl | hfits) o hout
    · exact absurd (eq_some_of_indicate hout).1 hcheck
    · exact absurd (eq_some_of_indicate hout).2.1 Bool.false_ne_true
    · exact splits_of_secondFits hfits hout

/-- 30 bytes that announce a second MSDU of no bytes. -/
theorem not_splits_empty : ∃ o, cmmRxRalinkFrameIndicate (fun _ => 0) (List.replicate 6 1)
      (List.replicate 6 2) true 0 30 = some o ∧ ¬o.Splits (fun _ => 0) 0 30 := by
  refine ⟨⟨[1, 1, 1, 1, 1, 1, 2, 2, 2, 2, 2, 2, 0, 28], 2, 28, 44, 65522⟩, by decide, fun h => ?_⟩
  exact absurd h.payload2_nowrap (by decide)

end

/-! ## Aggregates of the access point -/

/-- `AP_ARalink_Frame_Tx`, with the length field of `AP_Build_ARalink_Frame_Header`. -/
def apARalinkFrameTx (p q : EthPacket) : List (BitVec 8) :=
  let nextBufLen := BitVec.ofNat 16 q.bytes.length
  [nextBufLen.setWidth 8, (nextBufLen >>> 8).setWidth 8] ++ p.msdu ++ q.bytes

/-- The two packets that are handed up. -/
def Indicated.frames (mem : Bytes) (o : Indicated) : List (List (BitVec 8)) :=
  [o.header1 ++ mem.read o.pData1 o.payload1Size.toNat,
    mem.read (o.pData2 - 14) 14 ++ mem.read o.pData2 o.payload2Size.toNat]

/-- What is made of the first MSDU: its length field counts the second packet too. -/
def firstFrame (p q : EthPacket) (mem : Bytes) (pData : Nat) : List (BitVec 8) :=
  (convertTo8023 mem p.da p.sa (pData + 2)
      (BitVec.ofNat 16 (p.msdu.length + q.bytes.length))).header ++
    mem.read (pData + encapsulation mem pData) (2 + p.msdu.length - encapsulation mem pData)

section

variable {p q : EthPacket} {mem : Bytes} {pData : Nat}

/-- The length field tells the size of the second packet. -/
theorem toNat_msdu2SizeAt (h : Holds mem pData (apARalinkFrameTx p q)) :
    (msdu2SizeAt mem pData).toNat = q.bytes.length := by
  have hlen := (holds_append.mp (holds_append.mp h).1).1
  have hqlen := length_ethPacket q
  have hqmax := q.payload_length
  obtain ⟨hlow, hhigh⟩ : mem pData = (BitVec.ofNat 16 q.bytes.length).setWidth 8 ∧
      mem (pData + 1) = (BitVec.ofNat 16 q.bytes.length >>> 8).setWidth 8 := by
    simpa [Holds, Bytes.read, range_succ] using hlen
  simp [msdu2SizeAt, hlow, hhigh, Nat.shiftRight_eq_div_pow, Nat.shiftLeft_eq]
  omega

theorem frames_of_holds (h : Holds mem pData (apARalinkFrameTx p q)) :
    (cmmRxRalinkFrameIndicate mem p.da p.sa true pData
      (BitVec.ofNat 16 (apARalinkFrameTx p q).length)).map (Indicated.frames mem) =
      some [firstFrame p q mem pData, q.bytes] := by
  have hq := (holds_append.mp h).2
  have hbody : (apARalinkFrameTx p q).length = 2 + p.msdu.length + q.bytes.length := by
    simp [apARalinkFrameTx]
    omega
  rw [hbody]
  have hmsdu : 8 ≤ p.msdu.length ∧ p.msdu.length ≤ 1508 := p.subframe.msdu_length
  have hqlen := length_ethPacket q
  have hqmax := q.payload_length
  have henc : encapsulation mem pData ≤ 10 := encapsulation_le
  have hsize := toNat_msdu2SizeAt h
  have hfits : SecondFits mem pData (BitVec.ofNat 16 (2 + p.msdu.length + q.bytes.length)) :=
    ⟨by omega, by rw [BitVec.toNat_ofNat, Nat.mod_eq_of_lt (by omega)]; omega⟩
  have hcheck : msdu2SizeAt mem pData ≤ 1536 ∧
      msdu2SizeAt mem pData < BitVec.ofNat 16 (2 + p.msdu.length + q.bytes.length) := by
    bv_omega
  obtain ⟨o, hout⟩ : ∃ o, cmmRxRalinkFrameIndicate mem p.da p.sa true pData
      (BitVec.ofNat 16 (2 + p.msdu.length + q.bytes.length)) = some o := ⟨_, if_pos hcheck⟩
  obtain ⟨-, -, hdata1, -, hdata2, -⟩ := eq_some_of_indicate hout
  obtain ⟨hsize1, hsize2⟩ := sizes_of_secondFits hfits hout
  rw [BitVec.toNat_ofNat, Nat.mod_eq_of_lt (by omega)] at hsize1
  have hheader : o.header1 = (convertTo8023 mem p.da p.sa (pData + 2)
      (BitVec.ofNat 16 (p.msdu.length + q.bytes.length))).header := by
    have hsub : BitVec.ofNat 16 (2 + p.msdu.length + q.bytes.length) - 2 =
        BitVec.ofNat 16 (p.msdu.length + q.bytes.length) := by bv_omega
    rw [← some.inj ((if_pos hcheck).symm.trans hout), hsub]
  have hfirst : o.payload1Size.toNat = 2 + p.msdu.length - encapsulation mem pData := by omega
  -- the header of the second packet lies in front of its payload
  have hsecond : mem.read (o.pData2 - 14) 14 ++ mem.read o.pData2 o.payload2Size.toNat =
      q.bytes := by
    have hback : o.pData2 = o.pData2 - 14 + 14 := by omega
    have hstart : o.pData2 - 14 = pData + (2 + p.msdu.length) := by omega
    have hall : 14 + o.payload2Size.toNat = q.bytes.length := by omega
    rw [hback, Nat.add_sub_cancel, ← read_add, hstart, hall, Nat.add_comm 2]
    exact hq
  rw [hout, map_some, Indicated.frames, hheader, hdata1, hfirst, hsecond, firstFrame]

theorem llcLen_inj {x y : BitVec 16} (h : llcLen x = llcLen y) : x = y := by
  -- the two octets of a subframe header
  have hread : Bytes.read (Bytes.write (fun _ => 0) 12 (llcLen x)) (0 + 12) 2 = llcLen x :=
    read_write_self _ 12 (llcLen x)
  rw [← octets_of_read x hread, octets_of_read y (hread.trans h)]

theorem firstFrame_eq_iff (h : Holds mem (pData + 2) p.msdu) :
    firstFrame p q mem pData = p.bytes ↔ 1500 < p.type := by
  have hmsdu := length_msdu p
  have hmsduMin : 8 ≤ p.msdu.length := p.subframe.msdu_length.1
  have hbytes := length_ethPacket p
  have hllc := read_of_holds (i := 0) (n := 6) h (by omega)
  have hproto := read_of_holds (i := 6) (n := 2) h (by omega)
  rw [Nat.add_zero, drop_zero] at hllc
  unfold firstFrame
  by_cases htype : 1500 < p.type
  · obtain ⟨hsnap, hethernet⟩ := ethernet_subframe p htype
    have hat : LlcSnapAt mem (pData + 2) := by
      rw [LlcSnapAt, hllc, hproto]
      exact hsnap
    have hpayload := read_of_holds (i := 8) (n := p.msdu.length - 8) h (by omega)
    rw [take_of_length_le (by simp)] at hpayload
    have hleft : 2 + p.msdu.length - (2 + 8) = p.msdu.length - 8 := by omega
    rw [convertTo8023_of_removes hat, encapsulation, if_pos hat, hproto, hleft, ← Nat.add_assoc,
      hpayload, ← hethernet, Subframe.ethernet, if_pos hsnap]
    exact iff_of_true rfl htype
  · refine iff_of_false (fun heq => ?_) htype
    rw [if_neg htype, Nat.zero_add] at hmsdu
    by_cases hat : LlcSnapAt mem (pData + 2)
    · have hlen := congrArg length heq
      rw [convertTo8023_of_removes hat, encapsulation, if_pos hat] at hlen
      simp only [make8023Header, length_append, p.da_length, p.sa_length, length_read] at hlen
      omega
    · rw [convertTo8023_of_keeps hat] at heq
      change _ = make8023Header p.da p.sa (llcLen p.type) ++ p.payload at heq
      have hheader := append_inj_left heq (by simp [make8023Header, llcLen])
      have hfield := llcLen_inj (append_cancel_left hheader)
      have hle := (p.type_le htype).2
      have hpmax := p.payload_length
      have hqmax := q.payload_length
      have hqlen := length_ethPacket q
      rw [← hfield, BitVec.toNat_ofNat, Nat.mod_eq_of_lt (by omega)] at hle
      omega

end

/-- **Ralink aggregates**: the two packets arrive as they were sent exactly if the type field of the
    first is no length. -/
theorem cmmRxRalinkFrameIndicate_apARalinkFrameTx (p q : EthPacket) (mem : Bytes) (pData : Nat) :
    let body := apARalinkFrameTx p q
    (cmmRxRalinkFrameIndicate (mem.write pData body) p.da p.sa true pData
      (BitVec.ofNat 16 body.length)).map (Indicated.frames (mem.write pData body)) =
      some [p.bytes, q.bytes] ↔ 1500 < p.type := by
  intro body
  have h : Holds (mem.write pData body) pData (apARalinkFrameTx p q) := read_write_self mem pData _
  rw [frames_of_holds h, some.injEq, cons.injEq, and_iff_left rfl]
  exact firstFrame_eq_iff (holds_append.mp (holds_append.mp h).1).2

end RalinkSdk.RxData
