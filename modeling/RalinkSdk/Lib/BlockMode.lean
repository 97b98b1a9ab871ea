import Mathlib.Tactic.Ring
import RalinkSdk.Lib.Memory

/-!
# Modes of a block cipher

Authentication by chaining and encryption by a counter, for an arbitrary function on blocks of
16 bytes.  The last block is padded with zeros.  Nothing is assumed of the function on blocks:
it need not be a permutation.
-/

namespace RalinkSdk.Lib

/-- A block of 16 bytes. -/
abbrev Block := Fin 16 → BitVec 8

instance (priority := 1100) instNeZeroBlockSize : NeZero 16 := ⟨Nat.succ_ne_zero 15⟩

/-- The exclusive or of two blocks. -/
def Block.xor (a b : Block) : Block := fun i => a i ^^^ b i

theorem Block.xor_comm (a b : Block) : a.xor b = b.xor a := funext fun i => BitVec.xor_comm (a i) (b i)

/-! ## Blocks of memory -/

/-- Block `j` of the first `n` bytes, padded with zeros. -/
def padBlock (data : Bytes) (n j : Nat) : Block := fun i =>
  if 16 * j + i < n then data (16 * j + i) else 0

/-- The blocks of the first `n` bytes. -/
def dataBlocks (data : Bytes) (n : Nat) : List Block :=
  (List.range ((n + 15) / 16)).map (padBlock data n)

theorem padBlock_congr {data data' : Bytes} {n : Nat} (h : ∀ i < n, data i = data' i) (j : Nat) :
    padBlock data n j = padBlock data' n j := by
  funext i
  unfold padBlock
  split
  · next hi => exact h _ hi
  · rfl

theorem dataBlocks_congr {data data' : Bytes} {n : Nat} (h : ∀ i < n, data i = data' i) :
    dataBlocks data n = dataBlocks data' n :=
  List.map_congr_left fun j _ => padBlock_congr h j

/-! ## Chaining -/

/-- The value of the chain after some blocks. -/
def cbcMac (E : Block → Block) (mac : Block) (blocks : List Block) : Block :=
  blocks.foldl (fun mac block => E (block.xor mac)) mac

@[simp] theorem cbcMac_nil (E : Block → Block) (mac : Block) : cbcMac E mac [] = mac := rfl

@[simp] theorem cbcMac_cons (E : Block → Block) (mac block : Block) (blocks : List Block) :
    cbcMac E mac (block :: blocks) = cbcMac E (E (block.xor mac)) blocks := rfl

theorem cbcMac_append (E : Block → Block) (mac : Block) (blocks blocks' : List Block) :
    cbcMac E mac (blocks ++ blocks') = cbcMac E (cbcMac E mac blocks) blocks' :=
  List.foldl_append

/-! ## Counting -/

/-- Byte `i` of the encrypted counter blocks, which are counted from 1. -/
def keystream (E : Block → Block) (ctr : Nat → Block) (i : Nat) : BitVec 8 :=
  E (ctr (i / 16 + 1)) (Fin.ofNat 16 i)

/-- `n` bytes from `src` on, combined with a stream, are stored from `dst` on. -/
def xorStream (ks : Nat → BitVec 8) (mem : Bytes) (dst src n : Nat) : Bytes := fun a =>
  if dst ≤ a ∧ a < dst + n then mem (src + (a - dst)) ^^^ ks (a - dst) else mem a

section

variable {ks : Nat → BitVec 8} {mem : Bytes} {dst src n a i : Nat}

theorem xorStream_of_lt (h : a < dst) : xorStream ks mem dst src n a = mem a :=
  if_neg fun hin => absurd hin.1 (not_le.mpr h)

theorem xorStream_of_ge (h : dst + n ≤ a) : xorStream ks mem dst src n a = mem a :=
  if_neg fun hin => absurd hin.2 (not_lt.mpr h)

theorem xorStream_add (h : i < n) :
    xorStream ks mem dst src n (dst + i) = mem (src + i) ^^^ ks i := by
  rw [xorStream, if_pos ⟨Nat.le_add_right dst i, by omega⟩, Nat.add_sub_cancel_left]

@[simp] theorem xorStream_zero : xorStream ks mem dst src 0 = mem :=
  funext fun a => if_neg fun hin => by omega

theorem xorStream_congr {ks' : Nat → BitVec 8} (h : ∀ i < n, ks i = ks' i) :
    xorStream ks mem dst src n = xorStream ks' mem dst src n := by
  funext a
  unfold xorStream
  split
  · next hin => rw [h (a - dst) (by omega)]
  · rfl

theorem xorStream_ahead {k : Nat} (hsep : dst ≤ src ∨ src + (n + k) ≤ dst) (h : i < k) :
    xorStream ks mem dst src n (src + n + i) = mem (src + n + i) := by
  rcases hsep with hle | hend
  · exact xorStream_of_ge (by omega)
  · exact xorStream_of_lt (by omega)

theorem xorStream_extend {k : Nat} (hsep : dst ≤ src ∨ src + (n + k) ≤ dst) :
    xorStream (fun i => ks (n + i)) (xorStream ks mem dst src n) (dst + n) (src + n) k =
      xorStream ks mem dst src (n + k) := by
  funext a
  rcases lt_or_ge a (dst + n) with hlt | hge
  · rw [xorStream_of_lt hlt]
    rcases lt_or_ge a dst with hlt' | hge'
    · rw [xorStream_of_lt hlt', xorStream_of_lt hlt']
    · obtain ⟨i, rfl⟩ := Nat.exists_eq_add_of_le hge'
      rw [xorStream_add (by omega), xorStream_add (by omega)]
  · obtain ⟨i, rfl⟩ := Nat.exists_eq_add_of_le hge
    rcases lt_or_ge i k with hi | hi
    · rw [xorStream_add hi, xorStream_ahead hsep hi]
      rw [show dst + n + i = dst + (n + i) by omega, xorStream_add (by omega)]
      rw [show src + n + i = src + (n + i) by omega]
    · rw [xorStream_of_ge (by omega), xorStream_of_ge (by omega), xorStream_of_ge (by omega)]

end

end RalinkSdk.Lib
