import Mathlib.Data.BitVec
import Mathlib.Order.Basic

/-!
# Bytes at addresses

Memory as a function from addresses to bytes, for code that works in place on buffers that may
overlap.  Nothing is said about where a buffer ends.
-/

namespace RalinkSdk.Lib

open List

abbrev Bytes := Nat → BitVec 8

def Bytes.at (mem : Bytes) (p : Nat) : Bytes := fun i => mem (p + i)

/-- `memcpy`: `n` bytes of `src` are stored at `dst`. -/
def memcpy (mem : Bytes) (dst : Nat) (src : Bytes) (n : Nat) : Bytes := fun a =>
  if dst ≤ a ∧ a < dst + n then src (a - dst) else mem a

section

variable {mem src : Bytes} {dst n a : Nat}

theorem memcpy_of_mem (h : dst ≤ a) (h' : a < dst + n) : memcpy mem dst src n a = src (a - dst) :=
  if_pos ⟨h, h'⟩

theorem memcpy_of_lt (h : a < dst) : memcpy mem dst src n a = mem a :=
  if_neg fun hin => absurd hin.1 (not_le.mpr h)

theorem memcpy_of_ge (h : dst + n ≤ a) : memcpy mem dst src n a = mem a :=
  if_neg fun hin => absurd hin.2 (not_lt.mpr h)

theorem memcpy_add {i : Nat} (h : i < n) : memcpy mem dst src n (dst + i) = src i := by
  rw [memcpy_of_mem (Nat.le_add_right dst i) (by omega), Nat.add_sub_cancel_left]

end

/-- `n` bytes from an address on. -/
def Bytes.read (mem : Bytes) (p n : Nat) : List (BitVec 8) :=
  (range n).map fun i => mem (p + i)

/-- The bytes of a list are stored at an address. -/
def Bytes.write (mem : Bytes) (p : Nat) (bs : List (BitVec 8)) : Bytes :=
  memcpy mem p (fun i => bs.getD i 0) bs.length

section

variable {mem : Bytes} {p n : Nat}

@[simp] theorem length_read : (mem.read p n).length = n := by
  simp [Bytes.read]

theorem getElem_read {i : Nat} (h : i < (mem.read p n).length) :
    (mem.read p n)[i] = mem (p + i) := by
  simp [Bytes.read]

theorem read_write_append (mem : Bytes) (p n : Nat) (bs : List (BitVec 8)) :
    (mem.write (p + n) bs).read p (n + bs.length) = mem.read p n ++ bs := by
  apply ext_getElem
  · simp
  · intro i hi _
    rw [getElem_read hi]
    by_cases hin : i < n
    · rw [getElem_append_left (by simpa using hin), getElem_read]
      exact memcpy_of_lt (by omega)
    · have hlen : i < n + bs.length := by simpa using hi
      have hsplit : p + i = (p + n) + (i - n) := by omega
      rw [hsplit, getElem_append_right (by simpa using hin), Bytes.write,
        memcpy_add (by omega)]
      simp [getElem?_eq_getElem (by omega : i - n < bs.length)]

theorem read_write_drop (mem : Bytes) (p : Nat) (bs : List (BitVec 8)) (k : Nat) :
    (mem.write p bs).read (p + k) (bs.length - k) = bs.drop k := by
  apply ext_getElem
  · simp
  · intro i hi _
    have hlen : i < bs.length - k := by simpa using hi
    rw [getElem_read hi, Nat.add_assoc, Bytes.write, memcpy_add (by omega)]
    simp [getElem?_eq_getElem (by omega : k + i < bs.length)]

theorem read_add (mem : Bytes) (p m n : Nat) :
    mem.read p (m + n) = mem.read p m ++ mem.read (p + m) n := by
  simp [Bytes.read, range_add, Nat.add_assoc]

theorem read_write_self (mem : Bytes) (p : Nat) (bs : List (BitVec 8)) :
    (mem.write p bs).read p bs.length = bs := by
  simpa using read_write_drop mem p bs 0

theorem read_write_of_ge {bs : List (BitVec 8)} {q : Nat} (h : p + bs.length ≤ q) :
    (mem.write p bs).read q n = mem.read q n := by
  apply ext_getElem
  · simp
  · intro i hi _
    rw [getElem_read, getElem_read]
    exact memcpy_of_ge (by omega)

end

end RalinkSdk.Lib
