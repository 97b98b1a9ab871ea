import Mathlib.Tactic.IntervalCases
import RalinkSdk.RxData.Convert8023

/-!
# Taking an A-MSDU apart

`deaggregate_AMSDU_announce` of `common/cmm_data.c` in AP mode without VLAN.  The loop writes the
14-byte header of each subframe into the buffer it walks over, and announces clones of the packet
that point into that buffer.

Where no LLC/SNAP header makes room for it, the header is written over the first bytes of the
MSDU; and a subframe that is shorter than 32 bytes ends the loop.  `AP_AMSDU_Frame_Tx` of
`ap/ap_data.c` builds what is taken apart.

## Conventions

- Every clone of the packet is made.  What is announced is recorded with the bytes it has then.
-/

namespace RalinkSdk.RxData

open Lib List Nat

/-! ## The loop -/

/-- `pPayload` and `PayloadSize` of a clone, and its bytes. -/
structure Announced where
  pPayload : Nat
  payloadSize : BitVec 16
  frame : List (BitVec 8)
  deriving DecidableEq

/-- `nMSDU`, and what is announced. -/
structure Deaggregated where
  nMSDU : Nat
  announced : List Announced
  deriving DecidableEq

/-- The two octets of a subframe header. -/
def octets (mem : Bytes) (pData : Nat) : BitVec 16 :=
  (mem (pData + 13)).setWidth 16 + (mem (pData + 12)).setWidth 16 <<< 8

/-- One subframe: the buffer with the header in it, and the clone. -/
def announceSubframe (mem : Bytes) (pData : Nat) (payloadSize : BitVec 16) : Bytes × Announced :=
  let c := convertTo8023 mem (mem.read pData 6) (mem.read (pData + 6) 6) (pData + 14) payloadSize
  let pPayload := if c.removed then c.pData - 14 else c.pData
  let size := if c.removed then c.dataSize + 14 else c.dataSize
  let mem' := mem.write pPayload c.header
  (mem', ⟨pPayload, size, mem'.read pPayload size.toNat⟩)

/-- `(SubFrameSize+3)&(~0x3)` -/
def alignedSize (payloadSize : BitVec 16) : BitVec 16 := (payloadSize + 14 + 3) &&& ~~~(3 : BitVec 16)

def deaggregateAmsduAnnounce (mem : Bytes) (pData dataSize : Nat) : Deaggregated :=
  if 14 < dataSize then
    let payloadSize := octets mem pData
    if dataSize < (payloadSize + 14).toNat ∨ 1518 < payloadSize then ⟨1, []⟩
    else
      let step := announceSubframe mem pData payloadSize
      let subFrameSize := alignedSize payloadSize
      if hsize : 1528 < subFrameSize ∨ subFrameSize < 32 then ⟨1, [step.2]⟩
      else if hmore : subFrameSize.toNat < dataSize then
        let rest := deaggregateAmsduAnnounce step.1 (pData + subFrameSize.toNat)
          (dataSize - subFrameSize.toNat)
        ⟨rest.nMSDU + 1, step.2 :: rest.announced⟩
      else ⟨1, [step.2]⟩
  else ⟨0, []⟩
termination_by dataSize
decreasing_by
  have hge : ¬alignedSize (octets mem pData) < 32 := fun h => hsize (.inr h)
  bv_omega

/-! ## A-MSDUs -/

/-- A subframe: the addresses, the MSDU, and the bytes that fill it up to a multiple of 4. -/
structure Subframe where
  da : List (BitVec 8)
  sa : List (BitVec 8)
  msdu : List (BitVec 8)
  padding : List (BitVec 8)
  da_length : da.length = 6
  sa_length : sa.length = 6
  msdu_length : 8 ≤ msdu.length ∧ msdu.length ≤ 1508
  padding_length : padding.length = (alignedSize (BitVec.ofNat 16 msdu.length)).toNat -
    (14 + msdu.length)

namespace Subframe

variable (s : Subframe)

def size : BitVec 16 := BitVec.ofNat 16 s.msdu.length

/-- Header and MSDU. -/
def bytes : List (BitVec 8) := s.da ++ s.sa ++ llcLen s.size ++ s.msdu

/-- The MSDU starts with a header that is removed. -/
abbrev Snap : Prop := RemovesLlcSnap (s.msdu.take 6) ((s.msdu.drop 6).take 2)

/-- The Ethernet frame that is meant. -/
def ethernet : List (BitVec 8) :=
  if s.Snap then make8023Header s.da s.sa ((s.msdu.drop 6).take 2) ++ s.msdu.drop 8
  else make8023Header s.da s.sa (llcLen s.size) ++ s.msdu

end Subframe

/-- Subframes one after the other, all but the last filled up. -/
def amsdu : List Subframe → List (BitVec 8)
  | [] => []
  | [s] => s.bytes
  | s :: rest => s.bytes ++ s.padding ++ amsdu rest

/-! ## Where the clones lie -/

section

variable {mem : Bytes} {pData dataSize : Nat}

theorem announceSubframe_inside (mem : Bytes) (pData : Nat) {payloadSize : BitVec 16}
    (h : ¬1518 < payloadSize) : pData ≤ (announceSubframe mem pData payloadSize).2.pPayload ∧
      (announceSubframe mem pData payloadSize).2.pPayload +
        (announceSubframe mem pData payloadSize).2.payloadSize.toNat =
          pData + (payloadSize + 14).toNat := by
  unfold announceSubframe
  by_cases hllc : LlcSnapAt mem (pData + 14)
  · rw [convertTo8023_of_removes hllc]
    simp only [if_true]
    refine ⟨by omega, ?_⟩
    bv_omega
  · rw [convertTo8023_of_keeps hllc]
    simp only [Bool.false_eq_true, if_false]
    refine ⟨by omega, ?_⟩
    bv_omega

theorem clone_inside {payloadSize : BitVec 16}
    (h : ¬(dataSize < (payloadSize + 14).toNat ∨ 1518 < payloadSize)) :
    pData ≤ (announceSubframe mem pData payloadSize).2.pPayload ∧
      (announceSubframe mem pData payloadSize).2.pPayload +
        (announceSubframe mem pData payloadSize).2.payloadSize.toNat ≤ pData + dataSize := by
  obtain ⟨hfits, hmax⟩ := not_or.mp h
  obtain ⟨hfrom, hto⟩ := announceSubframe_inside mem pData hmax
  exact ⟨hfrom, by omega⟩

theorem announced_inside (mem : Bytes) (pData dataSize : Nat) :
    ∀ a ∈ (deaggregateAmsduAnnounce mem pData dataSize).announced,
      pData ≤ a.pPayload ∧ a.pPayload + a.payloadSize.toNat ≤ pData + dataSize := by
  fun_induction deaggregateAmsduAnnounce mem pData dataSize with
  | case1 | case5 => simp
  | case2 _ _ _ _ _ hok | case4 _ _ _ _ _ hok =>
    intro a ha
    obtain rfl := mem_singleton.mp ha
    exact clone_inside hok
  | case3 mem pData dataSize _ _ hok _ subFrameSize _ hmore _ ih =>
    intro a ha
    obtain rfl | ha := mem_cons.mp ha
    · exact clone_inside hok
    · have hin := ih a ha
      exact ⟨by omega, by omega⟩

end

/-! ## A subframe -/

section

variable {mem : Bytes} {pData : Nat} {s : Subframe}

/-- `bs` lies at `p`. -/
def Holds (mem : Bytes) (p : Nat) (bs : List (BitVec 8)) : Prop := mem.read p bs.length = bs

theorem holds_append {p : Nat} {bs cs : List (BitVec 8)} :
    Holds mem p (bs ++ cs) ↔ Holds mem p bs ∧ Holds mem (p + bs.length) cs := by
  unfold Holds
  rw [length_append, read_add]
  constructor
  · intro h
    exact ⟨append_inj_left h (by simp), append_inj_right h (by simp)⟩
  · rintro ⟨hbs, hcs⟩
    rw [hbs, hcs]

theorem octets_of_read (x : BitVec 16) (h : mem.read (pData + 12) 2 = llcLen x) :
    octets mem pData = x := by
  obtain ⟨hhigh, hlow⟩ : mem (pData + 12) = (x >>> 8).setWidth 8 ∧
      mem (pData + 13) = (x &&& 255).setWidth 8 := by
    simpa [Bytes.read, range_succ, llcLen] using h
  have hmod := and_two_pow_sub_one_eq_mod (x.toNat % 256 % 65536) 8
  rw [octets, hhigh, hlow]
  apply BitVec.eq_of_toNat_eq
  simp only [reducePow, Nat.reduceSub] at hmod
  simp [shiftRight_eq_div_pow, Nat.shiftLeft_eq, hmod]
  omega

theorem alignedSize_toNat {m : Nat} (h : m ≤ 1508) :
    (alignedSize (BitVec.ofNat 16 m)).toNat = (m + 17) / 4 * 4 := by
  have hmask (x : BitVec 16) : x &&& ~~~(3 : BitVec 16) = x >>> 2 <<< 2 := by
    ext i hi
    interval_cases i <;> simp
  rw [alignedSize, hmask]
  simp [shiftRight_eq_div_pow, Nat.shiftLeft_eq]
  omega

theorem read_of_holds {p i n : Nat} {bs : List (BitVec 8)} (h : Holds mem p bs)
    (hn : i + n ≤ bs.length) : mem.read (p + i) n = (bs.drop i).take n := by
  have hall : mem.read p (i + (n + (bs.length - (i + n)))) = bs := by
    rw [← Nat.add_assoc, Nat.add_sub_cancel' hn]
    exact h
  rw [← hall, read_add, read_add, drop_left' (by simp), take_left' (by simp)]

theorem length_bytes (s : Subframe) : s.bytes.length = 14 + s.msdu.length := by
  simp [Subframe.bytes, llcLen, s.da_length, s.sa_length]
  omega

theorem size_toNat (s : Subframe) : s.size.toNat = s.msdu.length := by
  have hmax := s.msdu_length.2
  rw [Subframe.size, BitVec.toNat_ofNat, mod_eq_of_lt (by omega)]

variable (h : Holds mem pData s.bytes)

include h

theorem reads_of_holds :
    mem.read pData 6 = s.da ∧ mem.read (pData + 6) 6 = s.sa ∧ octets mem pData = s.size ∧
      Holds mem (pData + 14) s.msdu := by
  unfold Subframe.bytes at h
  rw [holds_append, holds_append, holds_append] at h
  obtain ⟨⟨⟨hda, hsa⟩, hlen⟩, hmsdu⟩ := h
  simp only [Holds, length_append, s.da_length, s.sa_length] at hda hsa hlen hmsdu
  exact ⟨hda, hsa, octets_of_read s.size hlen, hmsdu⟩

theorem llcSnapAt_iff : LlcSnapAt mem (pData + 14) ↔ s.Snap := by
  have hmsdu := (reads_of_holds h).2.2.2
  have hmin := s.msdu_length.1
  have hllc := read_of_holds (i := 0) (n := 6) hmsdu (by omega)
  have hproto := read_of_holds (i := 6) (n := 2) hmsdu (by omega)
  rw [Nat.add_zero, drop_zero] at hllc
  rw [LlcSnapAt, hllc, hproto]

theorem frame_of_snap (hsnap : s.Snap) :
    (announceSubframe mem pData s.size).2.frame = s.ethernet := by
  obtain ⟨hda, hsa, -, hmsdu⟩ := reads_of_holds h
  have hmin := s.msdu_length.1
  have hmax := s.msdu_length.2
  have hproto := read_of_holds (i := 6) (n := 2) hmsdu (by omega)
  have hpayload := read_of_holds (i := 8) (n := s.msdu.length - 8) hmsdu (by omega)
  rw [take_of_length_le (by simp)] at hpayload
  have hsize : (s.size - 8 + 14).toNat = 14 + (s.msdu.length - 8) := by
    have := size_toNat s
    bv_omega
  have hheader : (make8023Header s.da s.sa ((s.msdu.drop 6).take 2)).length = 14 := by
    simp only [make8023Header, length_append, s.da_length, s.sa_length, length_take, length_drop]
    omega
  unfold announceSubframe
  rw [convertTo8023_of_removes ((llcSnapAt_iff h).mpr hsnap), hda, hsa, hproto]
  simp only [if_true, hsize]
  rw [Subframe.ethernet, if_pos hsnap, read_add, ← hheader, read_write_self,
    read_write_of_ge le_rfl, hheader]
  exact congrArg _ hpayload

theorem frame_eq_iff : (announceSubframe mem pData s.size).2.frame = s.ethernet ↔ s.Snap := by
  refine ⟨fun heq => by_contra fun hkeeps => ?_, frame_of_snap h⟩
  -- the clone is as long as the MSDU alone
  have hlen := congrArg List.length heq
  unfold announceSubframe at hlen
  rw [convertTo8023_of_keeps (mt (llcSnapAt_iff h).mp hkeeps), Subframe.ethernet,
    if_neg hkeeps] at hlen
  simp [make8023Header, llcLen, size_toNat, s.da_length] at hlen
  omega

theorem announceSubframe_keeps {q n : Nat} (hq : pData + 28 ≤ q) :
    (announceSubframe mem pData s.size).1.read q n = mem.read q n := by
  obtain ⟨hda, hsa, -, -⟩ := reads_of_holds h
  unfold announceSubframe
  by_cases hllc : LlcSnapAt mem (pData + 14)
  · rw [convertTo8023_of_removes hllc]
    apply read_write_of_ge
    simp [make8023Header, hda, hsa, s.da_length, s.sa_length]
    omega
  · rw [convertTo8023_of_keeps hllc]
    apply read_write_of_ge
    simp [make8023Header, llcLen, hda, hsa, s.da_length, s.sa_length]
    omega

end

/-! ## Whole A-MSDUs -/

/-- Every MSDU starts with a header that is removed, and all but the last have 15 bytes. -/
def Exact (subframes : List Subframe) : Prop :=
  (∀ s ∈ subframes, s.Snap) ∧ ∀ s ∈ subframes.dropLast, 15 ≤ s.msdu.length

section

variable {mem : Bytes} {pData dataSize : Nat} {s : Subframe}

/-- The length of a subframe that is filled up. -/
def Subframe.filled (s : Subframe) : Nat := (alignedSize s.size).toNat

theorem filled_eq (s : Subframe) : s.filled = (s.msdu.length + 17) / 4 * 4 :=
  alignedSize_toNat s.msdu_length.2

theorem announced_of_holds (h : Holds mem pData s.bytes) (hsize : 14 + s.msdu.length ≤ dataSize) :
    (deaggregateAmsduAnnounce mem pData dataSize).announced =
      (announceSubframe mem pData s.size).2 :: if s.filled < 32 ∨ dataSize ≤ s.filled then []
        else (deaggregateAmsduAnnounce (announceSubframe mem pData s.size).1 (pData + s.filled)
          (dataSize - s.filled)).announced := by
  have hmin := s.msdu_length.1
  have hmax := s.msdu_length.2
  have hlen := size_toNat s
  have hfilled := filled_eq s
  have hok : ¬(dataSize < (s.size + 14).toNat ∨ 1518 < s.size) := by bv_omega
  have hshort : (1528 < alignedSize s.size ∨ alignedSize s.size < 32) ↔ s.filled < 32 := by
    unfold Subframe.filled at hfilled ⊢
    bv_omega
  rw [deaggregateAmsduAnnounce, if_pos (by omega), (reads_of_holds h).2.2.1]
  simp only [if_neg hok]
  by_cases h32 : s.filled < 32
  · rw [dif_pos (hshort.mpr h32), if_pos (.inl h32)]
  · rw [dif_neg (mt hshort.mp h32)]
    by_cases hmore : (alignedSize s.size).toNat < dataSize
    · have hgoes : ¬(s.filled < 32 ∨ dataSize ≤ s.filled) := not_or.mpr ⟨h32, not_le.mpr hmore⟩
      rw [dif_pos hmore, if_neg hgoes]
      rfl
    · have hends : dataSize ≤ s.filled := not_lt.mp hmore
      rw [dif_neg hmore, if_pos (.inr hends)]

theorem length_filled (s : Subframe) : (s.bytes ++ s.padding).length = s.filled := by
  have hfilled := filled_eq s
  have hpadding : s.padding.length = s.filled - (14 + s.msdu.length) := s.padding_length
  rw [length_append, length_bytes, hpadding]
  omega

theorem length_amsdu_cons (s : Subframe) (rest : List Subframe) :
    14 + s.msdu.length ≤ (amsdu (s :: rest)).length := by
  cases rest with
  | nil => exact (length_bytes s).ge
  | cons t rest =>
    change _ ≤ (s.bytes ++ s.padding ++ amsdu (t :: rest)).length
    rw [length_append, length_append, length_bytes]
    omega

/-- The loop over the subframes of a list, with what each of them has to be announced as. -/
theorem announced_eq_iff {ι : Type} {f : ι → Subframe} {frameOf : ι → List (BitVec 8)}
    {Good : ι → Prop} (hgood : ∀ x mem pData, Holds mem pData (f x).bytes →
      ((announceSubframe mem pData (f x).size).2.frame = frameOf x ↔ Good x))
    (xs : List ι) (h : Holds mem pData (amsdu (xs.map f))) :
    (deaggregateAmsduAnnounce mem pData (amsdu (xs.map f)).length).announced.map (·.frame) =
      xs.map frameOf ↔
    (∀ x ∈ xs, Good x) ∧ ∀ x ∈ xs.dropLast, 15 ≤ (f x).msdu.length := by
  induction xs generalizing mem pData with
  | nil => simp [deaggregateAmsduAnnounce, amsdu]
  | cons x xs ih =>
    have hfilled := filled_eq (f x)
    cases xs with
    | nil =>
      rw [map_singleton, amsdu] at h ⊢
      have hend : (f x).bytes.length ≤ (f x).filled := by
        rw [length_bytes]
        omega
      rw [announced_of_holds h (length_bytes _).ge, if_pos (.inr hend)]
      simp [hgood x _ _ h]
    | cons y ys =>
      obtain ⟨hfirst, hbehind⟩ := holds_append.mp h
      have hs := (holds_append.mp hfirst).1
      rw [length_filled] at hbehind
      have hlen : (amsdu ((x :: y :: ys).map f)).length =
          (f x).filled + (amsdu ((y :: ys).map f)).length := by
        rw [← length_filled, ← length_append]
        rfl
      have hbehind_length := length_amsdu_cons (f y) (ys.map f)
      rw [hlen, announced_of_holds hs (by omega), map_cons (f := frameOf),
        map_cons (f := frameOf), forall_mem_cons (l := y :: ys), dropLast_cons_cons,
        forall_mem_cons (l := dropLast _)]
      by_cases hshort : (f x).filled < 32
      · -- the rest is not looked at
        rw [if_pos (.inl hshort)]
        exact iff_of_false (by simp) fun hall => absurd hall.2.1 (by omega)
      · rw [if_neg (by rw [map_cons]; omega), Nat.add_sub_cancel_left, map_cons, List.cons.injEq,
          hgood x _ _ hs, ← map_cons (f := frameOf), ih, and_assoc,
          and_iff_right (a := 15 ≤ _) (by omega)]
        unfold Holds
        rw [announceSubframe_keeps hs (by omega)]
        exact hbehind

theorem frames_eq_iff (subframes : List Subframe) (h : Holds mem pData (amsdu subframes)) :
    (deaggregateAmsduAnnounce mem pData (amsdu subframes).length).announced.map (·.frame) =
      subframes.map (·.ethernet) ↔ Exact subframes := by
  have hall := announced_eq_iff (f := id) (fun _ _ _ => frame_eq_iff) subframes (by rwa [map_id])
  rwa [map_id] at hall

/-- **A-MSDUs**: whatever the bytes, what is announced lies in the data received; and an A-MSDU is
    taken apart into the frames that are meant exactly where each header makes room for the one
    that is written, and no subframe but the last is shorter than 29 bytes. -/
theorem deaggregate_iff (mem : Bytes) (pData dataSize : Nat) (subframes : List Subframe) :
    (∀ a ∈ (deaggregateAmsduAnnounce mem pData dataSize).announced,
      pData ≤ a.pPayload ∧ a.pPayload + a.payloadSize.toNat ≤ pData + dataSize) ∧
    ((deaggregateAmsduAnnounce (mem.write pData (amsdu subframes)) pData
        (amsdu subframes).length).announced.map (·.frame) = subframes.map (·.ethernet) ↔
      Exact subframes) :=
  ⟨announced_inside mem pData dataSize,
    frames_eq_iff subframes (read_write_self mem pData (amsdu subframes))⟩

/-- A bridge's spanning tree message: LLC without SNAP. -/
def bpdu : Subframe where
  da := [0x01, 0x80, 0xc2, 0, 0, 0]
  sa := [0, 1, 2, 3, 4, 5]
  msdu := [0x42, 0x42, 0x03] ++ replicate 35 0
  padding := []
  da_length := rfl
  sa_length := rfl
  msdu_length := ⟨by decide, by decide⟩
  padding_length := rfl

/-- Of a spanning tree message the first 14 bytes are lost. -/
theorem bpdu_overwritten : (deaggregateAmsduAnnounce (Bytes.write (fun _ => 0) 0 (amsdu [bpdu])) 0
      (amsdu [bpdu]).length).announced.map (·.frame) ≠ [bpdu].map (·.ethernet) := by
  intro heq
  have hexact := (frames_eq_iff [bpdu] (read_write_self _ 0 (amsdu [bpdu]))).mp heq
  exact absurd (hexact.1 bpdu (List.mem_singleton_self bpdu)) (by decide)

end

/-! ## The sender -/

/-- An Ethernet packet.  A type field up to 1500 is the length of the data behind it, and Ethernet
    fills that up to more than 8 bytes. -/
structure EthPacket where
  da : List (BitVec 8)
  sa : List (BitVec 8)
  type : BitVec 16
  payload : List (BitVec 8)
  da_length : da.length = 6
  sa_length : sa.length = 6
  payload_length : payload.length ≤ 1500
  type_le : ¬1500 < type → 8 ≤ payload.length ∧ type.toNat ≤ payload.length

namespace EthPacket

variable (p : EthPacket)

def bytes : List (BitVec 8) := make8023Header p.da p.sa (llcLen p.type) ++ p.payload

/-- `EXTRA_LLCSNAP_ENCAP_FROM_PKT_OFFSET` -/
def extraLlcSnapEncap : Option (List (BitVec 8)) :=
  if 1500 < p.type then
    some (if llcLen p.type = ipx ∨ llcLen p.type = appleTalk then snapBridgeTunnel else snap8021h)
  else none

/-- What follows the length in a subframe. -/
def msdu : List (BitVec 8) := p.extraLlcSnapEncap.elim [] (· ++ llcLen p.type) ++ p.payload

/-- `ROUND_UP` of the subframe to a multiple of 4, less the subframe. -/
def padLen : Nat := (14 + p.msdu.length + 3) / 4 * 4 - (14 + p.msdu.length)

end EthPacket

/-- The loop of `AP_AMSDU_Frame_Tx`: a subframe is padded in front of the next one. -/
def amsduFrames : Option EthPacket → List EthPacket → List (BitVec 8)
  | _, [] => []
  | prev, p :: rest =>
    replicate (prev.elim 0 EthPacket.padLen) 0 ++
      (p.da ++ p.sa ++ llcLen (BitVec.ofNat 16 p.msdu.length) ++ p.msdu) ++ amsduFrames (some p) rest

/-- `AP_AMSDU_Frame_Tx`: the body behind the 802.11 header, with every packet filled in, without
    VLAN tags and not to the AP of a client link. -/
def apAmsduFrameTx (packets : List EthPacket) : List (BitVec 8) := amsduFrames none packets

/-! ## What a receiver makes of a packet -/

section

variable (p : EthPacket)

theorem msdu_of_gt (h : 1500 < p.type) : ∃ encap, encap.length = 6 ∧
    p.msdu = encap ++ llcLen p.type ++ p.payload ∧ RemovesLlcSnap encap (llcLen p.type) := by
  unfold EthPacket.msdu EthPacket.extraLlcSnapEncap
  rw [if_pos h]
  by_cases htype : llcLen p.type = ipx ∨ llcLen p.type = appleTalk
  · rw [if_pos htype]
    exact ⟨_, rfl, rfl, .inr rfl, fun hno => absurd hno.2 (by decide)⟩
  · rw [if_neg htype]
    exact ⟨_, rfl, rfl, .inl rfl, fun hno => htype hno.1⟩

theorem length_msdu : p.msdu.length = (if 1500 < p.type then 8 else 0) + p.payload.length := by
  split
  · next h =>
    obtain ⟨encap, hlen, hmsdu, -⟩ := msdu_of_gt p h
    simp [hmsdu, hlen, llcLen]
    omega
  · next h => simp only [EthPacket.msdu, EthPacket.extraLlcSnapEncap, if_neg h, Option.elim_none,
      nil_append, Nat.zero_add]

theorem length_ethPacket : p.bytes.length = 14 + p.payload.length := by
  simp [EthPacket.bytes, make8023Header, llcLen, p.da_length, p.sa_length]
  omega

/-- The subframe of a packet. -/
def EthPacket.subframe : Subframe where
  da := p.da
  sa := p.sa
  msdu := p.msdu
  padding := replicate p.padLen 0
  da_length := p.da_length
  sa_length := p.sa_length
  msdu_length := by
    have hpayload := p.payload_length
    have hlength := p.type_le
    rw [length_msdu]
    split <;> simp_all <;> omega
  padding_length := by
    have hpayload := p.payload_length
    have hmax : p.msdu.length ≤ 1508 := by rw [length_msdu]; split <;> omega
    rw [length_replicate, alignedSize_toNat hmax, EthPacket.padLen]
    omega

theorem ethernet_subframe (h : 1500 < p.type) :
    p.subframe.Snap ∧ p.subframe.ethernet = p.bytes := by
  obtain ⟨encap, hlen, hmsdu, hremoves⟩ := msdu_of_gt p h
  have hllc : p.msdu.take 6 = encap := by rw [hmsdu, append_assoc, ← hlen, take_left]
  have hproto : (p.msdu.drop 6).take 2 = llcLen p.type := by
    rw [hmsdu, append_assoc, ← hlen, drop_left]
    rfl
  have hpayload : p.msdu.drop 8 = p.payload := by
    rw [hmsdu]
    exact drop_left' (by simp [hlen, llcLen])
  have hsnap : p.subframe.Snap := by
    change RemovesLlcSnap (p.msdu.take 6) ((p.msdu.drop 6).take 2)
    rwa [hllc, hproto]
  refine ⟨hsnap, ?_⟩
  rw [Subframe.ethernet, if_pos hsnap]
  change make8023Header p.da p.sa ((p.msdu.drop 6).take 2) ++ p.msdu.drop 8 = _
  rw [hproto, hpayload, EthPacket.bytes]

variable {p} {mem : Bytes} {pData : Nat}

theorem frame_eq_bytes_iff (h : Holds mem pData p.subframe.bytes) :
    (announceSubframe mem pData p.subframe.size).2.frame = p.bytes ↔ 1500 < p.type := by
  constructor
  · intro heq
    by_contra hle
    have hmsdu := length_msdu p
    rw [if_neg hle, Nat.zero_add] at hmsdu
    have hpayload := p.payload_length
    have hlen := congrArg List.length heq
    rw [length_ethPacket] at hlen
    by_cases hsnap : p.subframe.Snap
    · -- the start of the payload is taken off
      rw [frame_of_snap h hsnap, Subframe.ethernet, if_pos hsnap] at hlen
      simp [make8023Header, EthPacket.subframe, hmsdu, p.da_length, p.sa_length] at hlen
      omega
    · unfold announceSubframe at hlen
      rw [convertTo8023_of_keeps (mt (llcSnapAt_iff h).mp hsnap)] at hlen
      simp [size_toNat, EthPacket.subframe, hmsdu] at hlen
  · intro hgt
    obtain ⟨hsnap, hbytes⟩ := ethernet_subframe p hgt
    rw [frame_of_snap h hsnap, hbytes]

end

/-! ## A-MSDUs -/

theorem amsduFrames_some (p : EthPacket) (rest : List EthPacket) :
    p.subframe.bytes ++ amsduFrames (some p) rest =
      amsdu ((p :: rest).map EthPacket.subframe) := by
  induction rest generalizing p with
  | nil => exact append_nil _
  | cons q rest ih =>
    change _ = p.subframe.bytes ++ p.subframe.padding ++ amsdu ((q :: rest).map EthPacket.subframe)
    rw [← ih, append_assoc, ← append_assoc p.subframe.padding]
    rfl

theorem apAmsduFrameTx_eq (packets : List EthPacket) :
    apAmsduFrameTx packets = amsdu (packets.map EthPacket.subframe) := by
  cases packets with
  | nil => rfl
  | cons p rest => exact amsduFrames_some p rest

/-- **A-MSDUs**: the packets arrive as they were sent, one after the other, exactly if no type
    field is a length and all but the last have 7 bytes of payload. -/
theorem deaggregate_apAmsduFrameTx (packets : List EthPacket) (mem : Bytes) (pData : Nat) :
    (deaggregateAmsduAnnounce (mem.write pData (apAmsduFrameTx packets)) pData
      (apAmsduFrameTx packets).length).announced.map (·.frame) = packets.map EthPacket.bytes ↔
    (∀ p ∈ packets, 1500 < p.type) ∧ ∀ p ∈ packets.dropLast, 7 ≤ p.payload.length := by
  rw [apAmsduFrameTx_eq, announced_eq_iff (fun _ _ _ => frame_eq_bytes_iff) packets
    (read_write_self mem pData _)]
  refine and_congr_right fun htypes => forall₂_congr fun p hp => ?_
  have hmsdu : p.subframe.msdu.length = _ := length_msdu p
  rw [if_pos (htypes p (mem_of_mem_dropLast hp))] at hmsdu
  omega

end RalinkSdk.RxData
