import RalinkSdk.Ccmp.BoundedCcmp
import RalinkSdk.Crypt.TkipDecrypt

/-!
# Decryption of received frames in software

The three decryptors over the body of a received frame.

## Source

`common/cmm_wep.c`, `common/cmm_tkip.c`, `common/cmm_aes.c`.
-/

namespace RalinkSdk.RxData

open Lib Crypt Ccmp List

section

variable {E : Block → Block → Block} {memory : WepMemory} {wepKey pData : List (BitVec 8)}
  {hdr : Bytes} {userPriority : BitVec 8} {tkipKey : TkipKey} {ccmpKey : CipherKey}

/-- **Received bodies**: only CCMP compares lengths, and it does so behind its header.  WEP needs
    header and check value; TKIP needs the MIC too, unless the check value is wrong. -/
theorem softDecryptors_stayInside_iff (hcap : pData.length < 2 ^ 16) : (StaysInside 8 pData
        (rtmpSoftDecryptWep memory wepKey pData (BitVec.ofNat 16 pData.length)) ↔
      memory.ctxMemory = false ∨ wepKey.length = 0 ∨
        ((memory.seedMemory = true → wepKey.length ≤ 13) ∧ 8 ≤ pData.length)) ∧
    (StaysInside 20 pData
        (rtmpSoftDecryptTkip hdr userPriority tkipKey pData (BitVec.ofNat 16 pData.length)) ↔
      tkipKey.keyLen = 0 ∨ 20 ≤ pData.length ∨
        (12 ≤ pData.length ∧ ¬TkipIcvMatches hdr tkipKey pData)) ∧
    (StaysInside 16 pData
        (rtmpSoftDecryptCcmpIn E hdr ccmpKey pData (BitVec.ofNat 16 pData.length)) ↔
      ccmpKey.keyLen = 0 ∨ 8 ≤ pData.length) :=
  ⟨wepStaysInside_iff hcap, tkipStaysInside_iff hcap, ccmpStaysInside_iff E hcap⟩

/-- A body of 20 bytes, which holds what TKIP adds and no text. -/
theorem softDecryptors_stayInside_iff_empty_text :
    StaysInside 8 (List.replicate 20 0) (rtmpSoftDecryptWep ⟨true, true, arc4Init []⟩
        (List.replicate 13 7) (List.replicate 20 0) 20) ∧
      StaysInside 20 (List.replicate 20 0) (rtmpSoftDecryptTkip (fun _ => 0) 0
        ⟨Buf.fill 16 7, Buf.fill 8 7, 16⟩ (List.replicate 20 0) 20) ∧
      StaysInside 16 (List.replicate 20 0) (rtmpSoftDecryptCcmpIn Block.xor (fun _ => 0)
        ⟨fun _ => 7, 16⟩ (List.replicate 20 0) 20) := by
  have hall := @softDecryptors_stayInside_iff Block.xor ⟨true, true, arc4Init []⟩
    (List.replicate 13 7) (List.replicate 20 0) (fun _ => 0) 0 ⟨Buf.fill 16 7, Buf.fill 8 7, 16⟩
    ⟨fun _ => 7, 16⟩ (by decide)
  exact ⟨hall.1.mpr (.inr (.inr ⟨fun _ => by decide, by decide⟩)),
    hall.2.1.mpr (.inr (.inl (by decide))), hall.2.2.mpr (.inr (by decide))⟩

/-- Bodies that hold nothing but the start of a header. -/
theorem not_staysInside_short_bodies :
    ¬StaysInside 8 [1, 2, 3, 0] (rtmpSoftDecryptWep ⟨true, true, arc4Init []⟩
        (List.replicate 13 7) [1, 2, 3, 0] 4) ∧
      ¬StaysInside 20 [1, 2, 3, 0] (rtmpSoftDecryptTkip (fun _ => 0) 0
        ⟨Buf.fill 16 7, Buf.fill 8 7, 16⟩ [1, 2, 3, 0] 4) ∧
      ¬StaysInside 16 [1, 2, 3, 0] (rtmpSoftDecryptCcmpIn Block.xor (fun _ => 0)
        ⟨fun _ => 7, 16⟩ [1, 2, 3, 0] 4) := by
  have hcap : ([1, 2, 3, 0] : List (BitVec 8)).length < 2 ^ 16 := by decide
  refine ⟨fun h => ?wep, fun h => ?tkip, fun h => ?ccmp⟩
  case wep =>
    have hcases := (wepStaysInside_iff hcap).mp h
    exact absurd hcases (by decide)
  case tkip =>
    rcases (tkipStaysInside_iff hcap).mp h with h | h | h
    · exact absurd h (by decide)
    · exact absurd h (by decide)
    · exact absurd h.1 (by decide)
  case ccmp =>
    have hcases := (ccmpStaysInside_iff Block.xor hcap).mp h
    exact absurd hcases (by decide)

end

end RalinkSdk.RxData
