import RalinkSdk.Lib.Memory

/-!
# From LLC/SNAP to an Ethernet header

The macro `CONVERT_TO_802_3` of `include/rtmp.h`.  It looks at the first 8 bytes of the payload,
also where the payload is shorter, and takes them off in 16-bit arithmetic.
-/

namespace RalinkSdk.RxData

open Lib

def snap8021h : List (BitVec 8) := [0xaa, 0xaa, 0x03, 0x00, 0x00, 0x00]

def snapBridgeTunnel : List (BitVec 8) := [0xaa, 0xaa, 0x03, 0x00, 0x00, 0xf8]

def ipx : List (BitVec 8) := [0x81, 0x37]

def appleTalk : List (BitVec 8) := [0x80, 0xf3]

def make8023Header (mac1 mac2 type : List (BitVec 8)) : List (BitVec 8) := mac1 ++ mac2 ++ type

/-- `LLC_Len`, the two bytes of a length. -/
def llcLen (dataSize : BitVec 16) : List (BitVec 8) :=
  [(dataSize >>> 8).setWidth 8, (dataSize &&& 255).setWidth 8]

/-- An encapsulation `llc` in front of the type `proto` is taken off, unless IPX or AppleTalk
    comes in the one of RFC 1042. -/
def RemovesLlcSnap (llc proto : List (BitVec 8)) : Prop :=
  (llc = snap8021h ∨ llc = snapBridgeTunnel) ∧
    ¬((proto = ipx ∨ proto = appleTalk) ∧ llc = snap8021h)

instance (llc proto : List (BitVec 8)) : Decidable (RemovesLlcSnap llc proto) :=
  inferInstanceAs (Decidable (_ ∧ _))

/-- What the macro leaves: `_p8023hdr`, `_pData`, `_DataSize`, and whether `_pRemovedLLCSNAP` is
    set. -/
structure Converted where
  header : List (BitVec 8)
  pData : Nat
  dataSize : BitVec 16
  removed : Bool

def convertTo8023 (mem : Bytes) (pDA pSA : List (BitVec 8)) (pData : Nat) (dataSize : BitVec 16) :
    Converted :=
  let llc := mem.read pData 6
  let pProto := mem.read (pData + 6) 2
  if llc = snap8021h ∨ llc = snapBridgeTunnel then
    if (pProto = ipx ∨ pProto = appleTalk) ∧ llc = snap8021h then
      ⟨make8023Header pDA pSA (llcLen dataSize), pData, dataSize, false⟩
    else ⟨make8023Header pDA pSA pProto, pData + 8, dataSize - 8, true⟩
  else ⟨make8023Header pDA pSA (llcLen dataSize), pData, dataSize, false⟩

/-- The payload at `pData` loses its LLC/SNAP header. -/
abbrev LlcSnapAt (mem : Bytes) (pData : Nat) : Prop :=
  RemovesLlcSnap (mem.read pData 6) (mem.read (pData + 6) 2)

section

variable {mem : Bytes} {pDA pSA : List (BitVec 8)} {pData : Nat} {dataSize : BitVec 16}

theorem convertTo8023_of_removes (h : LlcSnapAt mem pData) :
    convertTo8023 mem pDA pSA pData dataSize =
      ⟨make8023Header pDA pSA (mem.read (pData + 6) 2), pData + 8, dataSize - 8, true⟩ := by
  obtain ⟨hllc, hproto⟩ := h
  rw [convertTo8023, if_pos hllc, if_neg hproto]

theorem convertTo8023_of_keeps (h : ¬LlcSnapAt mem pData) :
    convertTo8023 mem pDA pSA pData dataSize =
      ⟨make8023Header pDA pSA (llcLen dataSize), pData, dataSize, false⟩ := by
  unfold convertTo8023
  by_cases hllc : mem.read pData 6 = snap8021h ∨ mem.read pData 6 = snapBridgeTunnel
  · rw [if_pos hllc, if_pos (by_contra fun hproto => h ⟨hllc, hproto⟩)]
  · rw [if_neg hllc]

end

end RalinkSdk.RxData
