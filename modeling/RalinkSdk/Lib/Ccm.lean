import Mathlib
import RalinkSdk.Lib.BlockMode

/-!
# Counter with CBC-MAC

The mode as it is defined, for an arbitrary function on blocks of 16 bytes: the control block, the
three encodings of the length of the authenticated data, and counters that take all the bytes the
nonce leaves.

## Main results

- `textBlocks_of_ne_nil`: a text is its first block and the blocks behind.
-/

namespace RalinkSdk.Lib.Ccm

open List Nat

/-! ## Numbers and blocks -/

/-- The low `q` bytes of a number, the high byte first. -/
def beBytes : Nat → Nat → List (BitVec 8)
  | 0, _ => []
  | q + 1, n => BitVec.ofNat 8 (n / 256 ^ q) :: beBytes q n

@[simp] theorem length_beBytes (q n : Nat) : (beBytes q n).length = q := by
  induction q with
  | zero => rfl
  | succ q ih => rw [beBytes, length_cons, ih]

theorem beBytes_getD (n : Nat) {q i : Nat} (h : i < q) :
    (beBytes q n).getD i 0 = BitVec.ofNat 8 (n / 256 ^ (q - 1 - i)) := by
  induction q generalizing i with
  | zero => cases h
  | succ q ih =>
    cases i with
    | zero => rfl
    | succ i =>
      rw [beBytes, getD_cons_succ, ih (lt_of_succ_lt_succ h)]
      congr 3
      omega

theorem beBytes_congr {q n m : Nat} (h : beBytes q n = beBytes q m) :
    n % 256 ^ q = m % 256 ^ q := by
  induction q with
  | zero => rw [pow_zero, mod_one, mod_one]
  | succ q ih =>
    obtain ⟨hhead, htail⟩ := List.cons.inj h
    have hdigit := congrArg BitVec.toNat hhead
    rw [BitVec.toNat_ofNat, BitVec.toNat_ofNat] at hdigit
    rw [mod_pow_succ, mod_pow_succ, ih htail]
    exact congrArg (fun d => m % 256 ^ q + 256 ^ q * d) hdigit

/-- A block that starts with these bytes. -/
def blockOf (bytes : List (BitVec 8)) : Block := fun i => bytes.getD i 0

def textBlocks (text : List (BitVec 8)) : List Block :=
  dataBlocks (fun i => text.getD i 0) text.length

theorem getD_take (text : List (BitVec 8)) {n i : Nat} (h : i < n) :
    (text.take n).getD i 0 = text.getD i 0 := by
  rw [getD_eq_getElem?_getD, getD_eq_getElem?_getD, getElem?_take_of_lt h]

theorem getD_drop (text : List (BitVec 8)) (n i : Nat) :
    (text.drop n).getD i 0 = text.getD (n + i) 0 := by
  rw [getD_eq_getElem?_getD, getD_eq_getElem?_getD, getElem?_drop]

theorem padded_getD (text : List (BitVec 8)) (i : Nat) :
    (if i < text.length then text.getD i 0 else 0) = text.getD i 0 := by
  by_cases hin : i < text.length
  · rw [if_pos hin]
  · rw [if_neg hin, getD_eq_default _ _ (Nat.not_lt.mp hin)]

theorem read_getD {mem : Bytes} {p n i : Nat} (h : i < n) :
    (mem.read p n).getD i 0 = mem (p + i) := by
  rw [getD_eq_getElem _ _ (by rwa [length_read]), getElem_read]

@[simp] theorem textBlocks_nil : textBlocks [] = [] := rfl

theorem textBlocks_of_ne_nil {text : List (BitVec 8)} (h : text ≠ []) :
    textBlocks text = blockOf (text.take 16) :: textBlocks (text.drop 16) := by
  have hpos := length_pos_iff.mpr h
  have hcount : (text.length + 15) / 16 = ((text.drop 16).length + 15) / 16 + 1 := by
    rw [length_drop]
    omega
  rw [textBlocks, dataBlocks, hcount, range_succ_eq_map, map_cons, map_map]
  refine cons_eq_cons.mpr ⟨funext fun i => ?_, map_congr_left fun j _ => funext fun i => ?_⟩
  · have hi := i.isLt
    rw [padBlock, blockOf, Nat.mul_zero, Nat.zero_add, getD_take text hi]
    exact padded_getD text i.val
  · rw [Function.comp_apply, padBlock, padBlock, getD_drop, length_drop]
    have hadd : 16 + (16 * j + i.val) = 16 * succ j + i.val := by omega
    rw [hadd]
    by_cases hin : 16 * succ j + i.val < text.length
    · rw [if_pos hin, if_pos (by omega)]
    · rw [if_neg hin, if_neg (by omega)]

/-! ## The mode -/

section

variable (nonce aad : List (BitVec 8))

/-- The number of bytes that are left for lengths and counters. -/
def lengthSize : Nat := 15 - nonce.length

/-- The first block: flags, nonce and the length of the text. -/
def controlBlock (tagLength n : Nat) : Block :=
  blockOf (BitVec.ofNat 8 ((if aad = [] then 0 else 64) + 8 * ((tagLength - 2) / 2) +
    (lengthSize nonce - 1)) :: (nonce ++ beBytes (lengthSize nonce) n))

/-- The length of authenticated data. -/
def aadLength (n : Nat) : List (BitVec 8) :=
  if n < 2 ^ 16 - 2 ^ 8 then beBytes 2 n
  else if n < 2 ^ 32 then 0xff :: 0xfe :: beBytes 4 n
  else 0xff :: 0xff :: beBytes 8 n

/-- The authenticated data with their length. -/
def aadText : List (BitVec 8) := if aad = [] then [] else aadLength aad.length ++ aad

def counterBlock (i : Nat) : Block :=
  blockOf (BitVec.ofNat 8 (lengthSize nonce - 1) :: (nonce ++ beBytes (lengthSize nonce) i))

variable (E : Block → Block)

/-- The value of the chain. -/
def mac (tagLength : Nat) (text : List (BitVec 8)) : Block :=
  cbcMac E (E (controlBlock nonce aad tagLength text.length))
    (textBlocks (aadText aad) ++ textBlocks text)

/-- The text with the key stream added, and the tag. -/
def encrypt (tagLength : Nat) (text : List (BitVec 8)) : List (BitVec 8) :=
  ((range text.length).map fun i => text.getD i 0 ^^^ keystream E (counterBlock nonce) i) ++
    (range tagLength).map fun i =>
      (mac nonce aad E tagLength text).xor (E (counterBlock nonce 0)) (Fin.ofNat 16 i)

section

variable (tagLength : Nat) (text : List (BitVec 8))

theorem length_encrypt : (encrypt nonce aad E tagLength text).length = text.length + tagLength := by
  simp [encrypt]

theorem encrypt_getD_text {i : Nat} (h : i < text.length) :
    (encrypt nonce aad E tagLength text).getD i 0 =
      text.getD i 0 ^^^ keystream E (counterBlock nonce) i := by
  rw [encrypt, getD_append _ _ _ _ (by simpa using h),
    getD_eq_getElem _ _ (by simpa using h)]
  simp

theorem encrypt_getD_tag {i : Nat} (h : i < tagLength) :
    (encrypt nonce aad E tagLength text).getD (text.length + i) 0 =
      (mac nonce aad E tagLength text).xor (E (counterBlock nonce 0)) (Fin.ofNat 16 i) := by
  rw [encrypt, getD_append_right _ _ _ _ (by simp), getD_eq_getElem _ _ (by simpa using h)]
  simp

end

theorem write_encrypt (tagLength : Nat) (mem : Bytes) (dst src n : Nat) :
    mem.write dst (encrypt nonce aad E tagLength (mem.read src n)) =
      memcpy (xorStream (keystream E (counterBlock nonce)) mem dst src n) (dst + n)
        (fun i => (mac nonce aad E tagLength (mem.read src n)).xor (E (counterBlock nonce 0))
          (Fin.ofNat 16 i)) tagLength := by
  have hlen : (mem.read src n).length = n := length_read
  have htotal := length_encrypt nonce aad E tagLength (mem.read src n)
  rw [hlen] at htotal
  funext a
  rw [Bytes.write, htotal]
  rcases lt_or_ge a dst with hlt | hge
  · rw [memcpy_of_lt hlt, memcpy_of_lt (by omega), xorStream_of_lt hlt]
  obtain ⟨i, rfl⟩ := Nat.exists_eq_add_of_le hge
  rcases lt_or_ge i n with hin | hout
  · rw [memcpy_add (by omega), memcpy_of_lt (by omega), xorStream_add hin,
      encrypt_getD_text nonce aad E tagLength _ (by rwa [hlen]), read_getD hin]
  obtain ⟨j, rfl⟩ := Nat.exists_eq_add_of_le hout
  rcases lt_or_ge j tagLength with hin | hout
  · have htag := encrypt_getD_tag nonce aad E tagLength (mem.read src n) hin
    rw [hlen] at htag
    rw [memcpy_add (by omega), htag, ← Nat.add_assoc, memcpy_add hin]
  · rw [memcpy_of_ge (by omega), memcpy_of_ge (by omega), xorStream_of_ge (by omega)]

theorem header_getD (flags : BitVec 8) (hnonce : nonce.length ≤ 15) (n : Nat) {i : Nat}
    (hi : nonce.length < i) (hlt : i < 16) :
    blockOf (flags :: (nonce ++ beBytes (lengthSize nonce) n)) (Fin.ofNat 16 i) =
      BitVec.ofNat 8 (n / 256 ^ (15 - i)) := by
  obtain ⟨j, rfl⟩ := Nat.exists_eq_add_of_lt hi
  rw [blockOf, show (Fin.ofNat 16 (nonce.length + j + 1)).val = nonce.length + j + 1 from
    mod_eq_of_lt hlt, getD_cons_succ, getD_append_right _ _ _ _ (Nat.le_add_right _ _),
    Nat.add_sub_cancel_left, beBytes_getD n (by rw [lengthSize]; omega)]
  congr 3
  rw [lengthSize]
  omega

theorem header_getD_nonce (flags : BitVec 8) (rest : List (BitVec 8)) {i : Nat}
    (hi : i < nonce.length) (hlt : i + 1 < 16) :
    blockOf (flags :: (nonce ++ rest)) (Fin.ofNat 16 (i + 1)) = nonce.getD i 0 := by
  rw [blockOf, show (Fin.ofNat 16 (i + 1)).val = i + 1 from mod_eq_of_lt hlt,
    getD_cons_succ, getD_append _ _ _ _ hi]

/-- **Counters**: the counter blocks of a nonce are different as long as the counter has room. -/
theorem counterBlock_injective {i j : Nat} (hi : i < 256 ^ lengthSize nonce)
    (hj : j < 256 ^ lengthSize nonce) (hnonce : nonce.length ≤ 15)
    (h : counterBlock nonce i = counterBlock nonce j) : i = j := by
  have hbytes : beBytes (lengthSize nonce) i = beBytes (lengthSize nonce) j := by
    refine ext_getElem (by simp) fun k hk hk' => ?_
    rw [length_beBytes, lengthSize] at hk
    have hat := congrFun h (Fin.ofNat 16 (nonce.length + k + 1))
    rw [counterBlock, counterBlock, header_getD nonce _ hnonce i (by omega) (by omega),
      header_getD nonce _ hnonce j (by omega) (by omega)] at hat
    rw [← getD_eq_getElem _ 0, ← getD_eq_getElem _ 0, beBytes_getD _ (by rwa [lengthSize]),
      beBytes_getD _ (by rwa [lengthSize]),
      show lengthSize nonce - 1 - k = 15 - (nonce.length + k + 1) by rw [lengthSize]; omega, hat]
  have hmod := beBytes_congr hbytes
  rwa [mod_eq_of_lt hi, mod_eq_of_lt hj] at hmod

end

end RalinkSdk.Lib.Ccm
