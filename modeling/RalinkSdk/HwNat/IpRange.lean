import Mathlib.Data.Nat.Prime.Basic
import RalinkSdk.HwNat.Acl

/-!
# Ranges of addresses in the policy table

An entry for addresses holds the first one and the size of the range, as a mantissa of 8 bits and
an exponent of 5.  `CalIpRange` takes all factors 2 out of the size and keeps the lowest 8 bits of
what is left; nothing refuses a size for which that is not all.

## Source

`net/nat/hw_nat/util.c`, `net/nat/hw_nat/acl_policy.c`, `net/nat/hw_nat/policy.h`: `struct l3_rule`.
-/

namespace RalinkSdk.HwNat

open BitVec Nat List

/-- The addresses of an entry: from `ip` on, as many as `ip_rng_m << ip_rng_e`. -/
def EntryMatch.Covers : EntryMatch → BitVec 32 → Prop
  | .ip _ start m e, x => start.toNat ≤ x.toNat ∧ x.toNat < start.toNat + m.toNat <<< e.toNat
  | _, _ => False

def rangeSize (startIp endIp : BitVec 32) : Nat := endIp.toNat - startIp.toNat + 1

/-- A size that an entry can hold. -/
def Holdable (size : Nat) : Prop := size < 2 ^ 32 ∧ ∃ m e, m < 256 ∧ size = m * 2 ^ e

theorem toNat_range {startIp endIp : BitVec 32} (h : startIp ≤ endIp) :
    (endIp + 1 - startIp).toNat = rangeSize startIp endIp % 2 ^ 32 := by
  have hle := le_def.mp h
  have hstart := startIp.isLt
  have hend := endIp.isLt
  unfold rangeSize
  rw [toNat_sub, toNat_add]
  simp
  omega

/-- **The loop** finds the number of factors 2, and what is left is cut to the mantissa. -/
theorem calIpRange_spec {startIp endIp : BitVec 32} {size : Nat}
    (hsize : (endIp + 1 - startIp).toNat = size) (hpos : 0 < size) :
    ∃ e, e < 32 ∧ size = size / 2 ^ e * 2 ^ e ∧ size / 2 ^ e % 2 = 1 ∧
      calIpRange startIp endIp = (BitVec.ofNat 8 (size / 2 ^ e), BitVec.ofNat 5 e) := by
  have hbits : ∀ i, ((endIp + 1 - startIp) >>> i).getLsbD 0 = size.testBit i := fun i => by
    rw [getLsbD_ushiftRight, getLsbD, hsize, Nat.add_zero]
  unfold calIpRange
  simp only [hbits]
  cases hfind : (List.range 32).find? fun i => size.testBit i with
  | none =>
    -- no bit is set, so that there is nothing in the range
    have hzero : size = 0 := by
      apply eq_of_testBit_eq
      intro i
      rw [zero_testBit]
      by_cases hi : i < 32
      · simpa using List.find?_eq_none.mp hfind i (mem_range.mpr hi)
      · rw [← hsize]
        exact getLsbD_of_ge _ i (Nat.le_of_not_lt hi)
    exact absurd hzero (Nat.ne_of_gt hpos)
  | some e =>
    obtain ⟨hset, hlt, hlow⟩ := List.find?_range_eq_some.mp hfind
    have hdvd : size % 2 ^ e = 0 := by
      apply eq_of_testBit_eq
      intro i
      rw [testBit_mod_two_pow, zero_testBit]
      by_cases hi : i < e
      · simpa [hi] using hlow i hi
      · simp [hi]
    refine ⟨e, mem_range.mp hlt, (Nat.div_mul_cancel (dvd_of_mod_eq_zero hdvd)).symm, ?_, ?_⟩
    · rw [testBit_eq_decide_div_mod_eq] at hset
      simpa using hset
    · refine Prod.ext (eq_of_toNat_eq ?_) rfl
      rw [toNat_setWidth, toNat_ushiftRight, hsize, shiftRight_eq_div_pow,
        toNat_ofNat]

theorem holdable_iff {size e : Nat} (hlt : size < 2 ^ 32) (hsize : size = size / 2 ^ e * 2 ^ e)
    (hodd : size / 2 ^ e % 2 = 1) : Holdable size ↔ size / 2 ^ e < 256 := by
  constructor
  · rintro ⟨-, m, e', hm, heq⟩
    -- the odd part divides every mantissa
    have hcoprime : Nat.Coprime (size / 2 ^ e) (2 ^ e') :=
      Nat.Coprime.pow_right e' (coprime_two_right.mpr (odd_iff.mpr hodd))
    have hdvd : size / 2 ^ e ∣ m * 2 ^ e' := ⟨2 ^ e, by rw [← heq]; exact hsize⟩
    have hle := le_of_dvd ?_ (hcoprime.dvd_of_dvd_mul_right hdvd)
    · exact Nat.lt_of_le_of_lt hle hm
    · rw [Nat.pos_iff_ne_zero]
      rintro rfl
      rw [Nat.zero_mul] at heq
      rw [heq] at hodd
      simp at hodd
  · intro hfit
    exact ⟨hlt, _, e, hfit, hsize⟩

theorem calIpRange_size_iff {startIp endIp : BitVec 32} (h : startIp ≤ endIp) :
    (calIpRange startIp endIp).1.toNat <<< (calIpRange startIp endIp).2.toNat =
        rangeSize startIp endIp ↔ Holdable (rangeSize startIp endIp) := by
  have hrange := toNat_range h
  by_cases hlt : rangeSize startIp endIp < 2 ^ 32
  · rw [mod_eq_of_lt hlt] at hrange
    obtain ⟨e, he, hsize, hodd, heq⟩ := calIpRange_spec hrange (succ_pos _)
    rw [holdable_iff hlt hsize hodd, heq, Nat.shiftLeft_eq, toNat_ofNat, toNat_ofNat,
      mod_eq_of_lt (show e < 2 ^ 5 from he)]
    constructor
    · intro hcut
      have hsame := eq_of_mul_eq_mul_right (Nat.two_pow_pos e) (hcut.trans hsize)
      rw [← hsame]
      exact mod_lt _ (by decide)
    · intro hfit
      rw [mod_eq_of_lt hfit]
      exact hsize.symm
  · -- the range of all addresses: its size wraps around to 0
    refine iff_of_false ?_ fun hhold => hlt hhold.1
    have hfull : rangeSize startIp endIp = 2 ^ 32 := by
      have hend := endIp.isLt
      unfold rangeSize at hlt ⊢
      omega
    have hzero : endIp + 1 - startIp = 0 := by
      apply eq_of_toNat_eq
      rw [hrange, hfull]
      rfl
    have hnone : calIpRange startIp endIp = (0, 0) := by
      unfold calIpRange
      rw [hzero]
      decide
    rw [hnone, hfull]
    decide

/-! ## The entry -/

/-- The first and the last address of a rule, by direction. -/
def AclPlcyNode.range (node : AclPlcyNode) : L3RuleDir → BitVec 32 × BitVec 32
  | .sip => (node.sipS, node.sipE)
  | .dip => (node.dipS, node.dipE)

theorem what_aclSetIpEntry (node : AclPlcyNode) (dir : L3RuleDir) (last : EntryEnd) :
    (aclSetIpEntry node dir last).what =
      .ip dir (node.range dir).1 (calIpRange (node.range dir).1 (node.range dir).2).1
        (calIpRange (node.range dir).1 (node.range dir).2).2 := by
  cases dir <;> rfl

/-- The entry for a range: its mantissa and exponent give the size of the range, so that it covers
    the addresses of the range and no others. -/
structure EntryIsRange (startIp endIp : BitVec 32) (entry : EntryMatch) : Prop where
  size : ∃ dir m e, entry = .ip dir startIp m e ∧
    m.toNat <<< e.toNat = endIp.toNat - startIp.toNat + 1
  covers : ∀ x, entry.Covers x ↔ startIp ≤ x ∧ x ≤ endIp

/-- **An entry encodes the range of its rule** if and only if the size of the range is a mantissa
    below 256 times a power of 2, and less than the number of all addresses. -/
theorem ip_entry_range_iff (node : AclPlcyNode) (dir : L3RuleDir) (last : EntryEnd)
    (h : (node.range dir).1 ≤ (node.range dir).2) :
    EntryIsRange (node.range dir).1 (node.range dir).2 (aclSetIpEntry node dir last).what ↔
      Holdable (rangeSize (node.range dir).1 (node.range dir).2) := by
  rw [what_aclSetIpEntry, ← calIpRange_size_iff h]
  constructor
  · rintro ⟨⟨dir', m, e, heq, hsize⟩, -⟩
    obtain ⟨-, -, rfl, rfl⟩ := EntryMatch.ip.inj heq
    exact hsize
  · intro hsize
    refine ⟨⟨_, _, _, rfl, hsize⟩, fun x => ?_⟩
    have hle := BitVec.le_def.mp h
    simp only [EntryMatch.Covers, hsize, rangeSize, BitVec.le_def]
    omega

/-- A rule for the addresses of a range. -/
def sipRule (first last : BitVec 32) : AclPlcyNode :=
  ⟨.allow, .any, .sipDipAny, 0, 0, 0, 0, first, last, 0, 0, 0, 0, 0, 0, 0, 0, 0, 0, 7⟩

theorem ip_entry_range_class_c : EntryIsRange 0xC0A80100 0xC0A801FF
      (aclSetIpEntry (sipRule 0xC0A80100 0xC0A801FF) .sip .notEntryEnd).what :=
  (ip_entry_range_iff (sipRule 0xC0A80100 0xC0A801FF) .sip .notEntryEnd (by decide)).mpr
    ⟨by decide, 1, 8, by decide, by decide⟩

/-- 257 addresses are cut to one. -/
theorem range_cut_to_one_address : ¬ ∀ startIp endIp : BitVec 32, startIp ≤ endIp →
      (calIpRange startIp endIp).1.toNat <<< (calIpRange startIp endIp).2.toNat =
        endIp.toNat - startIp.toNat + 1 := by
  intro h
  have hcut := h 0xC0A80100 0xC0A80200 (by decide)
  revert hcut
  decide

end RalinkSdk.HwNat
