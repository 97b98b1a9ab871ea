import RalinkSdk.Lib.Tlv

/-!
# TKIP key mixing

`RTMPTkipMixKey`, which computes with 32 bits and reduces in phase 1 only, and the mixing functions
of the standard, which compute with 16 bits.

## Source

`common/cmm_tkip.c`.
-/

namespace RalinkSdk.Crypt

open Lib BitVec Nat

/-! ## The functions of the driver -/

def tkipSboxLower : List (BitVec 8) :=
  [0xa5, 0x84, 0x99, 0x8d, 0x0d, 0xbd, 0xb1, 0x54, 0x50, 0x03, 0xa9, 0x7d, 0x19, 0x62, 0xe6, 0x9a,
   0x45, 0x9d, 0x40, 0x87, 0x15, 0xeb, 0xc9, 0x0b, 0xec, 0x67, 0xfd, 0xea, 0xbf, 0xf7, 0x96, 0x5b,
   0xc2, 0x1c, 0xae, 0x6a, 0x5a, 0x41, 0x02, 0x4f, 0x5c, 0xf4, 0x34, 0x08, 0x93, 0x73, 0x53, 0x3f,
   0x0c, 0x52, 0x65, 0x5e, 0x28, 0xa1, 0x0f, 0xb5, 0x09, 0x36, 0x9b, 0x3d, 0x26, 0x69, 0xcd, 0x9f,
   0x1b, 0x9e, 0x74, 0x2e, 0x2d, 0xb2, 0xee, 0xfb, 0xf6, 0x4d, 0x61, 0xce, 0x7b, 0x3e, 0x71, 0x97,
   0xf5, 0x68, 0x00, 0x2c, 0x60, 0x1f, 0xc8, 0xed, 0xbe, 0x46, 0xd9, 0x4b, 0xde, 0xd4, 0xe8, 0x4a,
   0x6b, 0x2a, 0xe5, 0x16, 0xc5, 0xd7, 0x55, 0x94, 0xcf, 0x10, 0x06, 0x81, 0xf0, 0x44, 0xba, 0xe3,
   0xf3, 0xfe, 0xc0, 0x8a, 0xad, 0xbc, 0x48, 0x04, 0xdf, 0xc1, 0x75, 0x63, 0x30, 0x1a, 0x0e, 0x6d,
   0x4c, 0x14, 0x35, 0x2f, 0xe1, 0xa2, 0xcc, 0x39, 0x57, 0xf2, 0x82, 0x47, 0xac, 0xe7, 0x2b, 0x95,
   0xa0, 0x98, 0xd1, 0x7f, 0x66, 0x7e, 0xab, 0x83, 0xca, 0x29, 0xd3, 0x3c, 0x79, 0xe2, 0x1d, 0x76,
   0x3b, 0x56, 0x4e, 0x1e, 0xdb, 0x0a, 0x6c, 0xe4, 0x5d, 0x6e, 0xef, 0xa6, 0xa8, 0xa4, 0x37, 0x8b,
   0x32, 0x43, 0x59, 0xb7, 0x8c, 0x64, 0xd2, 0xe0, 0xb4, 0xfa, 0x07, 0x25, 0xaf, 0x8e, 0xe9, 0x18,
   0xd5, 0x88, 0x6f, 0x72, 0x24, 0xf1, 0xc7, 0x51, 0x23, 0x7c, 0x9c, 0x21, 0xdd, 0xdc, 0x86, 0x85,
   0x90, 0x42, 0xc4, 0xaa, 0xd8, 0x05, 0x01, 0x12, 0xa3, 0x5f, 0xf9, 0xd0, 0x91, 0x58, 0x27, 0xb9,
   0x38, 0x13, 0xb3, 0x33, 0xbb, 0x70, 0x89, 0xa7, 0xb6, 0x22, 0x92, 0x20, 0x49, 0xff, 0x78, 0x7a,
   0x8f, 0xf8, 0x80, 0x17, 0xda, 0x31, 0xc6, 0xb8, 0xc3, 0xb0, 0x77, 0x11, 0xcb, 0xfc, 0xd6, 0x3a]

def tkipSboxUpper : List (BitVec 8) :=
  [0xc6, 0xf8, 0xee, 0xf6, 0xff, 0xd6, 0xde, 0x91, 0x60, 0x02, 0xce, 0x56, 0xe7, 0xb5, 0x4d, 0xec,
   0x8f, 0x1f, 0x89, 0xfa, 0xef, 0xb2, 0x8e, 0xfb, 0x41, 0xb3, 0x5f, 0x45, 0x23, 0x53, 0xe4, 0x9b,
   0x75, 0xe1, 0x3d, 0x4c, 0x6c, 0x7e, 0xf5, 0x83, 0x68, 0x51, 0xd1, 0xf9, 0xe2, 0xab, 0x62, 0x2a,
   0x08, 0x95, 0x46, 0x9d, 0x30, 0x37, 0x0a, 0x2f, 0x0e, 0x24, 0x1b, 0xdf, 0xcd, 0x4e, 0x7f, 0xea,
   0x12, 0x1d, 0x58, 0x34, 0x36, 0xdc, 0xb4, 0x5b, 0xa4, 0x76, 0xb7, 0x7d, 0x52, 0xdd, 0x5e, 0x13,
   0xa6, 0xb9, 0x00, 0xc1, 0x40, 0xe3, 0x79, 0xb6, 0xd4, 0x8d, 0x67, 0x72, 0x94, 0x98, 0xb0, 0x85,
   0xbb, 0xc5, 0x4f, 0xed, 0x86, 0x9a, 0x66, 0x11, 0x8a, 0xe9, 0x04, 0xfe, 0xa0, 0x78, 0x25, 0x4b,
   0xa2, 0x5d, 0x80, 0x05, 0x3f, 0x21, 0x70, 0xf1, 0x63, 0x77, 0xaf, 0x42, 0x20, 0xe5, 0xfd, 0xbf,
   0x81, 0x18, 0x26, 0xc3, 0xbe, 0x35, 0x88, 0x2e, 0x93, 0x55, 0xfc, 0x7a, 0xc8, 0xba, 0x32, 0xe6,
   0xc0, 0x19, 0x9e, 0xa3, 0x44, 0x54, 0x3b, 0x0b, 0x8c, 0xc7, 0x6b, 0x28, 0xa7, 0xbc, 0x16, 0xad,
   0xdb, 0x64, 0x74, 0x14, 0x92, 0x0c, 0x48, 0xb8, 0x9f, 0xbd, 0x43, 0xc4, 0x39, 0x31, 0xd3, 0xf2,
   0xd5, 0x8b, 0x6e, 0xda, 0x01, 0xb1, 0x9c, 0x49, 0xd8, 0xac, 0xf3, 0xcf, 0xca, 0xf4, 0x47, 0x10,
   0x6f, 0xf0, 0x4a, 0x5c, 0x38, 0x57, 0x73, 0x97, 0xcb, 0xa1, 0xe8, 0x3e, 0x96, 0x61, 0x0d, 0x0f,
   0xe0, 0x7c, 0x71, 0xcc, 0x90, 0x06, 0xf7, 0x1c, 0xc2, 0x6a, 0xae, 0x69, 0x17, 0x99, 0x3a, 0x27,
   0xd9, 0xeb, 0x2b, 0x22, 0xd2, 0xa9, 0x07, 0x33, 0x2d, 0x3c, 0x15, 0xc9, 0x87, 0xaa, 0x50, 0xa5,
   0x03, 0x59, 0x09, 0x1a, 0x65, 0xd7, 0x84, 0xd0, 0x82, 0x29, 0x5a, 0x1e, 0x7b, 0xa8, 0x6d, 0x2c]

/-- An entry of a table, as a `UINT`. -/
def sboxEntry (table : List (BitVec 8)) (index : BitVec 32) : BitVec 32 :=
  (table.getD index.toNat 0).setWidth 32

def tkipSbox (index : BitVec 32) : BitVec 32 :=
  let indexLow := index % 256
  let indexHigh := (index >>> 8) % 256
  let left := sboxEntry tkipSboxLower indexLow + sboxEntry tkipSboxUpper indexLow * 256
  let right := sboxEntry tkipSboxUpper indexHigh + sboxEntry tkipSboxLower indexHigh * 256
  left ^^^ right

def rotr1 (a : BitVec 32) : BitVec 32 :=
  let b := if a &&& 0x01 = 0x01 then a >>> 1 ||| 0x8000 else a >>> 1 &&& 0x7fff
  b % 65536

/-- `(256*key[i+1]) + key[i]` -/
def keyWord (key : List (BitVec 8)) (i : Nat) : BitVec 32 :=
  256 * (key.getD (i + 1) 0).setWidth 32 + (key.getD i 0).setWidth 32

structure P1k where
  p0 : BitVec 32
  p1 : BitVec 32
  p2 : BitVec 32
  p3 : BitVec 32
  p4 : BitVec 32
deriving DecidableEq

/-- Pass `i` of the loop of phase 1. -/
def mixPhase1Step (key : List (BitVec 8)) (p1k : P1k) (i : Nat) : P1k :=
  let j := 2 * (i &&& 1)
  let p0 := (p1k.p0 + tkipSbox ((p1k.p4 ^^^ keyWord key j) % 65536)) % 65536
  let p1 := (p1k.p1 + tkipSbox ((p0 ^^^ keyWord key (4 + j)) % 65536)) % 65536
  let p2 := (p1k.p2 + tkipSbox ((p1 ^^^ keyWord key (8 + j)) % 65536)) % 65536
  let p3 := (p1k.p3 + tkipSbox ((p2 ^^^ keyWord key (12 + j)) % 65536)) % 65536
  let p4 := (p1k.p4 + tkipSbox ((p3 ^^^ keyWord key j) % 65536)) % 65536
  let p4 := (p4 + BitVec.ofNat 32 i) % 65536
  { p0, p1, p2, p3, p4 }

def mixPhase1 (key ta : List (BitVec 8)) (pnh : BitVec 32) : P1k :=
  (List.range 8).foldl (mixPhase1Step key)
    { p0 := pnh % 65536
      p1 := (pnh >>> 16) % 65536
      p2 := keyWord ta 0
      p3 := keyWord ta 2
      p4 := keyWord ta 4 }

structure Ppk where
  k0 : BitVec 32
  k1 : BitVec 32
  k2 : BitVec 32
  k3 : BitVec 32
  k4 : BitVec 32
  k5 : BitVec 32

/-- Phase 2, step 2: the sums are not reduced. -/
def mixPhase2 (key : List (BitVec 8)) (p1k : P1k) (tsc2 : BitVec 32) : Ppk :=
  let ppk5 := (p1k.p4 + tsc2) % 65536
  let ppk0 := p1k.p0 + tkipSbox ((ppk5 ^^^ keyWord key 0) % 65536)
  let ppk1 := p1k.p1 + tkipSbox ((ppk0 ^^^ keyWord key 2) % 65536)
  let ppk2 := p1k.p2 + tkipSbox ((ppk1 ^^^ keyWord key 4) % 65536)
  let ppk3 := p1k.p3 + tkipSbox ((ppk2 ^^^ keyWord key 6) % 65536)
  let ppk4 := p1k.p4 + tkipSbox ((ppk3 ^^^ keyWord key 8) % 65536)
  let ppk5 := ppk5 + tkipSbox ((ppk4 ^^^ keyWord key 10) % 65536)
  let ppk0 := ppk0 + rotr1 (ppk5 ^^^ keyWord key 12)
  let ppk1 := ppk1 + rotr1 (ppk0 ^^^ keyWord key 14)
  let ppk2 := ppk2 + rotr1 ppk1
  let ppk3 := ppk3 + rotr1 ppk2
  let ppk4 := ppk4 + rotr1 ppk3
  let ppk5 := ppk5 + rotr1 ppk4
  { k0 := ppk0, k1 := ppk1, k2 := ppk2, k3 := ppk3, k4 := ppk4, k5 := ppk5 }

/-- A `UINT` below 256 stored in a byte. -/
def lowByte (x : BitVec 32) : BitVec 8 := x.setWidth 8

/-- `RTMPTkipMixKey`: `rc4key` and `p1k`. -/
def rtmpTkipMixKey (key : Buf 16) (ta : Buf 6) (pnl pnh : BitVec 32) : List (BitVec 8) × P1k :=
  let tsc2 := pnl % 65536
  let p1k := mixPhase1 key.bytes ta.bytes pnh
  let ppk := mixPhase2 key.bytes p1k tsc2
  ([lowByte ((tsc2 >>> 8) % 256), lowByte (((tsc2 >>> 8) % 256 ||| 0x20) &&& 0x7f),
    lowByte (tsc2 % 256), lowByte (((ppk.k5 ^^^ keyWord key.bytes 0) >>> 1) % 256),
    lowByte (ppk.k0 % 256), lowByte ((ppk.k0 >>> 8) % 256),
    lowByte (ppk.k1 % 256), lowByte ((ppk.k1 >>> 8) % 256),
    lowByte (ppk.k2 % 256), lowByte ((ppk.k2 >>> 8) % 256),
    lowByte (ppk.k3 % 256), lowByte ((ppk.k3 >>> 8) % 256),
    lowByte (ppk.k4 % 256), lowByte ((ppk.k4 >>> 8) % 256),
    lowByte (ppk.k5 % 256), lowByte ((ppk.k5 >>> 8) % 256)], p1k)

/-! ## The functions of the standard -/

def lo8 (x : BitVec 16) : BitVec 8 := x.setWidth 8

def hi8 (x : BitVec 16) : BitVec 8 := x.extractLsb' 8 8

/-- `Mk16` of two bytes of the key, the high one first. -/
def mk16 (key : List (BitVec 8)) (i : Nat) : BitVec 16 := key.getD (i + 1) 0 ++ key.getD i 0

/-- The substitution box: the entry of the low byte, and that of the high byte with its bytes
    swapped. -/
def sbox16 (v : BitVec 16) : BitVec 16 :=
  (tkipSboxUpper.getD (lo8 v).toNat 0 ++ tkipSboxLower.getD (lo8 v).toNat 0) ^^^
    (tkipSboxLower.getD (hi8 v).toNat 0 ++ tkipSboxUpper.getD (hi8 v).toNat 0)

/-- The values `TTAK0` to `TTAK4`. -/
structure Ttak where
  t0 : BitVec 16
  t1 : BitVec 16
  t2 : BitVec 16
  t3 : BitVec 16
  t4 : BitVec 16

/-- Pass `i` of phase 1 of the standard. -/
def phase1Step (tk : List (BitVec 8)) (t : Ttak) (i : Nat) : Ttak :=
  let j := 2 * (i &&& 1)
  let t0 := t.t0 + sbox16 (t.t4 ^^^ mk16 tk j)
  let t1 := t.t1 + sbox16 (t0 ^^^ mk16 tk (4 + j))
  let t2 := t.t2 + sbox16 (t1 ^^^ mk16 tk (8 + j))
  let t3 := t.t3 + sbox16 (t2 ^^^ mk16 tk (12 + j))
  let t4 := t.t4 + sbox16 (t3 ^^^ mk16 tk j) + BitVec.ofNat 16 i
  { t0, t1, t2, t3, t4 }

def phase1 (tk ta : List (BitVec 8)) (iv32 : BitVec 32) : Ttak :=
  (List.range 8).foldl (phase1Step tk)
    { t0 := iv32.extractLsb' 0 16
      t1 := iv32.extractLsb' 16 16
      t2 := mk16 ta 0
      t3 := mk16 ta 2
      t4 := mk16 ta 4 }

/-- The values `PPK0` to `PPK5`. -/
structure Ppk16 where
  k0 : BitVec 16
  k1 : BitVec 16
  k2 : BitVec 16
  k3 : BitVec 16
  k4 : BitVec 16
  k5 : BitVec 16

def phase2Keys (tk : List (BitVec 8)) (t : Ttak) (iv16 : BitVec 16) : Ppk16 :=
  let ppk5 := t.t4 + iv16
  let ppk0 := t.t0 + sbox16 (ppk5 ^^^ mk16 tk 0)
  let ppk1 := t.t1 + sbox16 (ppk0 ^^^ mk16 tk 2)
  let ppk2 := t.t2 + sbox16 (ppk1 ^^^ mk16 tk 4)
  let ppk3 := t.t3 + sbox16 (ppk2 ^^^ mk16 tk 6)
  let ppk4 := t.t4 + sbox16 (ppk3 ^^^ mk16 tk 8)
  let ppk5 := ppk5 + sbox16 (ppk4 ^^^ mk16 tk 10)
  let ppk0 := ppk0 + (ppk5 ^^^ mk16 tk 12).rotateRight 1
  let ppk1 := ppk1 + (ppk0 ^^^ mk16 tk 14).rotateRight 1
  let ppk2 := ppk2 + ppk1.rotateRight 1
  let ppk3 := ppk3 + ppk2.rotateRight 1
  let ppk4 := ppk4 + ppk3.rotateRight 1
  let ppk5 := ppk5 + ppk4.rotateRight 1
  { k0 := ppk0, k1 := ppk1, k2 := ppk2, k3 := ppk3, k4 := ppk4, k5 := ppk5 }

/-- Phase 2 of the standard: the seed of 16 bytes. -/
def phase2 (tk : List (BitVec 8)) (t : Ttak) (iv16 : BitVec 16) : List (BitVec 8) :=
  let ppk := phase2Keys tk t iv16
  [hi8 iv16, (hi8 iv16 ||| 0x20) &&& 0x7f, lo8 iv16, lo8 ((ppk.k5 ^^^ mk16 tk 0) >>> 1),
    lo8 ppk.k0, hi8 ppk.k0, lo8 ppk.k1, hi8 ppk.k1, lo8 ppk.k2, hi8 ppk.k2, lo8 ppk.k3,
    hi8 ppk.k3, lo8 ppk.k4, hi8 ppk.k4, lo8 ppk.k5, hi8 ppk.k5]

/-! ## Congruence modulo `2 ^ 16`

The low 16 bits of a `UINT`: what each function of the driver does to them depends on them only. -/

def low16 (x : BitVec 32) : BitVec 16 := x.setWidth 16

section

variable (x y : BitVec 32)

theorem low16_add : low16 (x + y) = low16 x + low16 y := setWidth_add x y (by decide)

theorem low16_xor : low16 (x ^^^ y) = low16 x ^^^ low16 y := setWidth_xor

theorem toNat_256 : (256 : BitVec 32).toNat = 256 := rfl

theorem low16_mod : low16 (x % 65536) = low16 x := by
  apply eq_of_toNat_eq
  rw [low16, low16, toNat_setWidth, toNat_setWidth, toNat_umod]
  exact mod_mod x.toNat 65536

theorem low16_bytes (hi lo : BitVec 8) :
    low16 (256 * hi.setWidth 32 + lo.setWidth 32) = hi ++ lo := by
  have hhi := hi.isLt
  have hlo := lo.isLt
  apply eq_of_toNat_eq
  rw [toNat_append, ← shiftLeft_add_eq_or_of_lt hlo, Nat.shiftLeft_eq]
  simp only [low16, toNat_setWidth, toNat_add, toNat_mul, toNat_256]
  omega

theorem low16_keyWord (key : List (BitVec 8)) (i : Nat) : low16 (keyWord key i) = mk16 key i :=
  low16_bytes _ _

theorem toNat_mod_256 : (x % 256).toNat = (lo8 (low16 x)).toNat := by
  simp only [lo8, low16, toNat_setWidth, toNat_umod, toNat_256]
  omega

theorem toNat_shift_mod_256 : ((x >>> 8) % 256).toNat = (hi8 (low16 x)).toNat := by
  simp only [hi8, low16, extractLsb'_toNat, toNat_setWidth, toNat_umod,
    toNat_ushiftRight, toNat_256, shiftRight_eq_div_pow]
  omega

theorem low16_sboxEntries (upper lower : List (BitVec 8)) (index : BitVec 32) :
    low16 (sboxEntry lower index + sboxEntry upper index * 256) =
      upper.getD index.toNat 0 ++ lower.getD index.toNat 0 := by
  rw [BitVec.add_comm, BitVec.mul_comm]
  exact low16_bytes _ _

/-- **`tkip_sbox`** depends on the low 16 bits. -/
theorem low16_tkipSbox : low16 (tkipSbox x) = sbox16 (low16 x) := by
  unfold tkipSbox sbox16
  dsimp only
  rw [low16_xor, low16_sboxEntries, low16_sboxEntries, toNat_mod_256, toNat_shift_mod_256]

/-- **`rotr1`** is the rotation of the low 16 bits: bit 16 becomes bit 15, which is either set or
    masked. -/
theorem low16_rotr1 : low16 (rotr1 x) = (low16 x).rotateRight 1 := by
  have hset : ∀ i < 16, (0x8000 : BitVec 32).getLsbD i = decide (i = 15) := by decide
  have hmask : ∀ i < 16, (0x7fff : BitVec 32).getLsbD i = decide (i < 15) := by decide
  have hbit : x &&& 0x01 = 0x01 ↔ x.getLsbD 0 = true := by
    have hone : (0x01 : BitVec 32) = 1#32 := rfl
    rw [hone, and_one_eq_setWidth_ofBool_getLsbD]
    cases x.getLsbD 0 <;> decide
  have hrotate : ∀ i < 16, ((low16 x).rotateRight 1).getLsbD i =
      if i = 15 then x.getLsbD 0 else x.getLsbD (1 + i) := by
    intro i hi
    rw [getLsbD_rotateRight]
    by_cases hlast : i = 15
    · subst hlast
      simp [low16]
    · have hlt : i < 15 := by omega
      have hin : 1 + i < 16 := by omega
      simp [low16, hlast, hlt, hin]
  -- bit by bit; bit 0 decides whether 0x8000 is set or masked
  unfold rotr1
  dsimp only
  rw [low16_mod]
  apply eq_of_getLsbD_eq
  intro i hi
  rw [hrotate i hi]
  by_cases hlow : x.getLsbD 0 = true
  · rw [if_pos (hbit.mpr hlow), low16, getLsbD_setWidth, getLsbD_or, hset i hi,
      getLsbD_ushiftRight]
    by_cases hlast : i = 15
    · simp [hlast, hlow]
    · simp [hlast, hi]
  · rw [if_neg fun h => hlow (hbit.mp h), low16, getLsbD_setWidth, getLsbD_and,
      hmask i hi, getLsbD_ushiftRight]
    have hclear : x.getLsbD 0 = false := Bool.eq_false_of_not_eq_true hlow
    by_cases hlast : i = 15
    · rw [if_pos hlast, hclear]
      simp [hlast]
    · have hlt : i < 15 := by omega
      simp [hlast, hi, hlt]

/-! ## The bytes of the key -/

theorem lowByte_mod : lowByte (x % 256) = lo8 (low16 x) := by
  apply eq_of_toNat_eq
  rw [lowByte, toNat_setWidth, toNat_mod_256]
  exact mod_eq_of_lt (lo8 (low16 x)).isLt

theorem lowByte_shift : lowByte ((x >>> 8) % 256) = hi8 (low16 x) := by
  apply eq_of_toNat_eq
  rw [lowByte, toNat_setWidth, toNat_shift_mod_256]
  exact mod_eq_of_lt (hi8 (low16 x)).isLt

theorem lowByte_shift_one : lowByte ((x >>> 1) % 256) = lo8 (low16 x >>> 1) := by
  apply eq_of_toNat_eq
  simp only [lowByte, lo8, low16, toNat_setWidth, toNat_umod,
    toNat_ushiftRight, toNat_256, shiftRight_eq_div_pow]
  omega

theorem lowByte_weak : lowByte (((x >>> 8) % 256 ||| 0x20) &&& 0x7f) =
    (hi8 (low16 x) ||| 0x20) &&& 0x7f := by
  rw [← lowByte_shift, lowByte, lowByte, setWidth_and, setWidth_or]
  rfl

end

/-! ## Both phases -/

def P1k.low16 (p : P1k) : Ttak where
  t0 := Crypt.low16 p.p0
  t1 := Crypt.low16 p.p1
  t2 := Crypt.low16 p.p2
  t3 := Crypt.low16 p.p3
  t4 := Crypt.low16 p.p4

def Ppk.low16 (p : Ppk) : Ppk16 where
  k0 := Crypt.low16 p.k0
  k1 := Crypt.low16 p.k1
  k2 := Crypt.low16 p.k2
  k3 := Crypt.low16 p.k3
  k4 := Crypt.low16 p.k4
  k5 := Crypt.low16 p.k5

section

variable (key ta : List (BitVec 8))

theorem low16_mixPhase1Step (p : P1k) (i : Nat) :
    (mixPhase1Step key p i).low16 = phase1Step key p.low16 i := by
  have hcount : low16 (BitVec.ofNat 32 i) = BitVec.ofNat 16 i := by
    apply eq_of_toNat_eq
    simp only [low16, toNat_setWidth, toNat_ofNat]
    omega
  simp only [mixPhase1Step, phase1Step, P1k.low16, low16_mod, low16_add, low16_tkipSbox, low16_xor,
    low16_keyWord, hcount]

/-- **Phase 1**. -/
theorem low16_mixPhase1 (pnh : BitVec 32) : (mixPhase1 key ta pnh).low16 = phase1 key ta pnh := by
  have hhigh : low16 ((pnh >>> 16) % 65536) = pnh.extractLsb' 16 16 := by
    apply eq_of_toNat_eq
    rw [low16_mod, low16, toNat_setWidth, extractLsb'_toNat, toNat_ushiftRight]
  have hlow : low16 (pnh % 65536) = pnh.extractLsb' 0 16 := by
    apply eq_of_toNat_eq
    rw [low16_mod, low16, toNat_setWidth, extractLsb'_toNat, shiftRight_zero]
  refine (List.foldl_hom P1k.low16 fun p i => (low16_mixPhase1Step key p i).symm).symm.trans ?_
  rw [phase1, P1k.low16, hhigh, hlow, low16_keyWord, low16_keyWord, low16_keyWord]

/-- **Phase 2**: no sum is reduced before it is used, and none has to be. -/
theorem low16_mixPhase2 (p : P1k) (tsc2 : BitVec 32) :
    (mixPhase2 key p tsc2).low16 = phase2Keys key p.low16 (low16 tsc2) := by
  simp only [mixPhase2, phase2Keys, P1k.low16, Ppk.low16, low16_mod, low16_add, low16_xor,
    low16_tkipSbox, low16_rotr1, low16_keyWord]

end

/-- **`RTMPTkipMixKey`** writes the seed of the standard, which does not depend on what is above
    bit 15 of a sum. -/
theorem rtmpTkipMixKey_eq (key : Buf 16) (ta : Buf 6) (pnl pnh : BitVec 32) :
    (rtmpTkipMixKey key ta pnl pnh).1 =
      phase2 key.bytes (phase1 key.bytes ta.bytes pnh) (low16 pnl) := by
  have hphase1 := low16_mixPhase1 key.bytes ta.bytes pnh
  have hphase2 := low16_mixPhase2 key.bytes (mixPhase1 key.bytes ta.bytes pnh) (pnl % 65536)
  rw [low16_mod, hphase1] at hphase2
  rw [phase2, ← hphase2]
  -- the bytes that are shifted first: the others are found in them
  simp only [rtmpTkipMixKey, lowByte_shift, lowByte_shift_one, lowByte_weak]
  simp only [Ppk.low16, lowByte_mod, low16_mod, low16_xor, low16_keyWord]

end RalinkSdk.Crypt
