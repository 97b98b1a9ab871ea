import RalinkSdk.Lib.OnesComplement
import RalinkSdk.Mat.Icmpv6

/-!
# The checksum of a message

The checksum is a sum of words of 16 bits with the high byte first.  The code adds words of 32 bits
with the low byte first, and stores the result so, which comes to the same: the words of the code
have 256 times the residues of those of the sum, and `256 * 256` is 1.
-/

namespace RalinkSdk.Mat

open IgmpSnoop (FrameByte)
open Lib List Nat Option
open scoped IgmpSnoop

/-! ## The loops -/

theorem addCarry_eq_onesAdd (csum x : BitVec 32) : addCarry csum x = onesAdd csum x :=
  add_carry_eq_onesAdd csum x

theorem shiftRight_eq_zero_iff (csum : BitVec 32) : csum >>> 16 = 0 ↔ csum.toNat < 2 ^ 16 := by
  bv_omega

theorem toNat_turn (csum : BitVec 32) : ((csum &&& (0xffff : BitVec 32)) + (csum >>> 16)).toNat =
      csum.toNat % 2 ^ 16 + csum.toNat / 2 ^ 16 := by
  have hlow : (csum &&& (0xffff : BitVec 32)).toNat = csum.toNat % 2 ^ 16 := by
    rw [BitVec.toNat_and]
    exact and_two_pow_sub_one_eq_mod csum.toNat 16
  have hhigh : (csum >>> 16).toNat = csum.toNat / 2 ^ 16 := by
    rw [BitVec.toNat_ushiftRight, shiftRight_eq_div_pow]
  have hlt := csum.isLt
  rw [BitVec.toNat_add, hlow, hhigh, mod_eq_of_lt (by omega)]

theorem foldCarries_of_lt {csum : BitVec 32} (h : csum.toNat < 2 ^ 16) (fuel : Nat) :
    foldCarries (fuel + 1) csum = csum :=
  if_pos ((shiftRight_eq_zero_iff csum).mpr h)

theorem foldCarries_of_le {csum : BitVec 32} (h : 2 ^ 16 ≤ csum.toNat) (fuel : Nat) :
    foldCarries (fuel + 1) csum =
      foldCarries fuel ((csum &&& (0xffff : BitVec 32)) + (csum >>> 16)) :=
  if_neg fun hzero => Nat.not_lt.mpr h ((shiftRight_eq_zero_iff csum).mp hzero)

theorem foldCarries_eq (csum : BitVec 32) : foldCarries 3 csum = (foldHalves csum).setWidth 32 := by
  have hlt := csum.isLt
  have hfirst := toNat_turn csum
  have hsecond := toNat_turn ((csum &&& (0xffff : BitVec 32)) + (csum >>> 16))
  have hhalves : (foldHalves csum).toNat =
      if csum.toNat / 2 ^ 16 + csum.toNat % 2 ^ 16 < 2 ^ 16 then
        csum.toNat / 2 ^ 16 + csum.toNat % 2 ^ 16
      else csum.toNat / 2 ^ 16 + csum.toNat % 2 ^ 16 + 1 - 2 ^ 16 := by
    have hhigh : (csum.extractLsb' 16 16).toNat = csum.toNat / 2 ^ 16 := by
      rw [BitVec.extractLsb'_toNat, shiftRight_eq_div_pow, mod_eq_of_lt (by omega)]
    have hlow : (csum.extractLsb' 0 16).toNat = csum.toNat % 2 ^ 16 := by
      rw [BitVec.extractLsb'_toNat, shiftRight_zero]
    rw [foldHalves, toNat_onesAdd, hhigh, hlow]
  apply BitVec.eq_of_toNat_eq
  rw [BitVec.toNat_setWidth_of_le (by decide), hhalves]
  by_cases hshort : csum.toNat < 2 ^ 16
  · rw [foldCarries_of_lt hshort, if_pos (by omega)]
    omega
  rw [foldCarries_of_le (Nat.not_lt.mp hshort)]
  by_cases hone : ((csum &&& (0xffff : BitVec 32)) + (csum >>> 16)).toNat < 2 ^ 16
  · rw [foldCarries_of_lt hone, if_pos (by omega)]
    omega
  · -- the carry of the first turn is 1, and there is none in the second
    rw [foldCarries_of_le (Nat.not_lt.mp hone), foldCarries_of_lt (by omega), if_neg (by omega)]
    omega

/-! ## Residues -/

theorem mul_casts : (256 : ZMod 65535) * 256 = 1 := by decide

theorem load32_spec {mem bytes : List FrameByte} {p : Nat} (h : fetch mem p 4 = some bytes) :
    ∃ x, load32 mem p = some x ∧ residue 65535 x = 256 * bytesResidue 65535 bytes := by
  obtain ⟨b₀, b₁, b₂, b₃, rfl⟩ : ∃ b₀ b₁ b₂ b₃, bytes = [b₀, b₁, b₂, b₃] :=
    length_eq_four.mp (length_fetch h)
  refine ⟨b₃ ++ b₂ ++ b₁ ++ b₀, ?_, ?_⟩
  · rw [load32, h]
    rfl
  · rw [residue_append_byte, residue_append_byte, residue_append_byte, bytesResidue_cons_cons,
      bytesResidue_cons_cons, bytesResidue_nil]
    linear_combination (256 * residue 65535 b₃ - residue 65535 b₀) * mul_casts

theorem addWords_spec {mem : List FrameByte} (n : Nat) :
    ∀ {p : Nat} {bytes : List FrameByte} (csum : BitVec 32), fetch mem p (4 * n) = some bytes →
      ∃ csum', addWords mem n p csum = some csum' ∧
        residue 65535 csum' = residue 65535 csum + 256 * bytesResidue 65535 bytes := by
  induction n with
  | zero =>
    intro p bytes csum h
    obtain rfl := length_eq_zero_iff.mp (length_fetch h)
    exact ⟨csum, rfl, by rw [bytesResidue_nil, mul_zero, add_zero]⟩
  | succ n ih =>
    intro p bytes csum h
    have hword := fetch_take h (show 4 ≤ 4 * (n + 1) by omega)
    have hrest := fetch_drop h (show 4 ≤ 4 * (n + 1) by omega)
    obtain ⟨x, hload, hx⟩ := load32_spec hword
    obtain ⟨csum', hadd, hcsum⟩ := ih (addCarry csum x) hrest
    refine ⟨csum', ?_, ?_⟩
    · rw [addWords, hload]
      exact hadd
    · have hsplit := bytesResidue_append 65535 (bytes.drop 4) (bytes.take 4)
        (by rw [length_fetch hword])
      rw [take_append_drop] at hsplit
      rw [hcsum, addCarry_eq_onesAdd, residue_onesAdd casts_thirtyTwo, hx, hsplit]
      ring

theorem residue_ntohl (x : BitVec 16) :
    residue 65535 (ntohl (x.setWidth 32)) = 256 * residue 65535 x := by
  have hx := x.isLt
  have hswap : (ntohl (x.setWidth 32)).toNat =
      x.toNat % 256 * 256 * 65536 + x.toNat / 256 * 65536 := by
    simp only [ntohl, toNat_append_eq, BitVec.extractLsb'_toNat, shiftRight_eq_div_pow,
      BitVec.toNat_setWidth]
    omega
  have hnat : (x.toNat : ZMod 65535) = (x.toNat / 256 * 256 + x.toNat % 256 : Nat) :=
    congrArg _ (by omega)
  have hcasts : ((65536 : Nat) : ZMod 65535) = 1 := by decide
  unfold residue
  rw [hswap, hnat]
  push_cast at hcasts ⊢
  linear_combination
    ((x.toNat % 256 : Nat) * 256 + (x.toNat / 256 : Nat) : ZMod 65535) * hcasts -
      (x.toNat / 256 : Nat) * mul_casts

/-! ## The checksum -/

/-- What is in front of the message in the sum: the two addresses, the length and the protocol. -/
def pseudoHdr (addrs : List FrameByte) (len : BitVec 16) : List FrameByte :=
  addrs ++ ([0, 0] ++ be16 len ++ [0, 0, 0, ipv6NextHeaderIcmpv6])

theorem bytesResidue_pseudoHdr {addrs : List FrameByte} (h : addrs.length % 2 = 0)
    (len : BitVec 16) : bytesResidue 65535 (pseudoHdr addrs len) =
      bytesResidue 65535 addrs + residue 65535 len + 58 := by
  have hlen : residue 65535 len = 256 * residue 65535 (len.extractLsb' 8 8) +
      residue 65535 (len.extractLsb' 0 8) := by
    rw [← residue_append_byte, append_be16]
  have hproto : residue 65535 ipv6NextHeaderIcmpv6 = 58 := rfl
  rw [pseudoHdr, bytesResidue_append _ _ _ h, be16, hlen]
  simp only [cons_append, nil_append, bytesResidue_cons_cons, bytesResidue_nil,
    residue_zero, hproto]
  ring

/-- **The checksum** of a message whose length is a multiple of four. -/
theorem icmpv6Csum_spec {mem addrs msg : List FrameByte} {p pICMPMsg : Nat} {len : BitVec 16}
    (hlen : len.toNat % 4 = 0) (haddrs : fetch mem p 32 = some addrs)
    (hmsg : fetch mem pICMPMsg len.toNat = some msg) :
    ∃ chksum, icmpv6Csum mem p (p + 16) len ipv6NextHeaderIcmpv6 pICMPMsg = some chksum ∧
      residue 65535 chksum = -(256 * bytesResidue 65535 (pseudoHdr addrs len ++ msg)) := by
  have hwords : len.toNat = 4 * (len.toNat / 4) := by omega
  rw [hwords] at hmsg
  have heven : addrs.length = 32 := length_fetch haddrs
  have hsrc := fetch_take haddrs (show 16 ≤ 32 by decide)
  have hdst := fetch_drop haddrs (show 16 ≤ 32 by decide)
  obtain ⟨csum₁, hadd₁, hres₁⟩ := addWords_spec 4 0 hsrc
  obtain ⟨csum₂, hadd₂, hres₂⟩ := addWords_spec 4 csum₁ hdst
  obtain ⟨csum₃, hadd₃, hres₃⟩ := addWords_spec (len.toNat / 4)
    (addCarry (addCarry csum₂ (ntohl (len.setWidth 32)))
      (ntohl (ipv6NextHeaderIcmpv6.setWidth 32))) hmsg
  refine ⟨(~~~foldCarries 3 csum₃).setWidth 16, ?_, ?_⟩
  · rw [icmpv6Csum, if_neg (not_not.mpr hlen), hadd₁, bind_eq_bind, bind_some, hadd₂,
      bind_some]
    dsimp only
    rw [hadd₃, bind_some]
  · have hnot : (~~~foldCarries 3 csum₃).setWidth 16 = ~~~foldHalves csum₃ := by
      rw [foldCarries_eq]
      bv_omega
    have hproto : residue 65535 (ntohl (ipv6NextHeaderIcmpv6.setWidth 32)) = 256 * 58 := by
      have h := residue_ntohl (ipv6NextHeaderIcmpv6.setWidth 16)
      exact h
    have hsplit := bytesResidue_append 65535 (addrs.drop 16) (addrs.take 16)
      (by rw [length_fetch hsrc])
    rw [take_append_drop] at hsplit
    have hpseudo : (pseudoHdr addrs len).length % 2 = 0 := by
      rw [pseudoHdr, length_append, length_append, length_append, length_be16, heven]
      rfl
    rw [hnot, residue_not casts_sixteen, residue_foldHalves, hres₃]
    rw [addCarry_eq_onesAdd, addCarry_eq_onesAdd, residue_onesAdd casts_thirtyTwo,
      residue_onesAdd casts_thirtyTwo, residue_ntohl, hproto, hres₂, hres₁, residue_zero]
    rw [bytesResidue_append _ _ _ hpseudo, bytesResidue_pseudoHdr (by rw [heven]), hsplit]
    ring

@[simp] theorem length_ushortBytes (x : BitVec 16) : (ushortBytes x).length = 2 := rfl

theorem bytesResidue_ushortBytes (x : BitVec 16) :
    bytesResidue 65535 (ushortBytes x) = 256 * residue 65535 x := by
  have hx : residue 65535 x = 256 * residue 65535 (x.extractLsb' 8 8) +
      residue 65535 (x.extractLsb' 0 8) := by
    rw [← residue_append_byte, append_be16]
  rw [ushortBytes, bytesResidue_cons_cons, bytesResidue_nil, hx]
  linear_combination -(residue 65535 (x.extractLsb' 8 8)) * mul_casts

/-- **With the checksum in its place** the sum has the residue 0. -/
theorem bytesResidue_checked {front rest : List FrameByte} (hfront : front.length % 2 = 0)
    {chksum : BitVec 16} (h : residue 65535 chksum =
      -(256 * bytesResidue 65535 (front ++ (ushortBytes 0 ++ rest)))) :
    bytesResidue 65535 (front ++ (ushortBytes chksum ++ rest)) = 0 := by
  have hsplit : ∀ x : BitVec 16, bytesResidue 65535 (front ++ (ushortBytes x ++ rest)) =
      bytesResidue 65535 front + (256 * residue 65535 x + bytesResidue 65535 rest) := by
    intro x
    have heven : (ushortBytes x).length % 2 = 0 := by rw [length_ushortBytes]
    rw [bytesResidue_append _ _ _ hfront, bytesResidue_append _ _ _ heven, bytesResidue_ushortBytes]
  rw [hsplit, residue_zero] at h
  rw [hsplit, h]
  linear_combination -(bytesResidue 65535 front + bytesResidue 65535 rest) * mul_casts

end RalinkSdk.Mat
