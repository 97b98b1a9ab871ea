import Mathlib.Data.List.TakeWhile

/-!
# Bytes, C strings and raw memory

C strings are byte lists without a NUL, carried with the proof of it.  A region
of raw memory is a plain byte list; a search that would leave the region says so
(`Strchr.overrun`) instead of returning something.  `memWrite` stores bytes at an
offset of a region and lets the region grow when the store runs past its end, so
that what was written behind a buffer stays visible.
-/

namespace RalinkSdk.Lib

open List

/-- The bytes of a C string, without the terminating NUL. -/
structure CStr where
  bytes : List UInt8
  noNul : (0 : UInt8) ∉ bytes
  deriving DecidableEq

namespace CStr

def strlen (s : CStr) : Nat := s.bytes.length

def empty : CStr := ⟨[], by simp⟩

/-- The C string stored at the start of a memory region (`kstrdup`, `strdup`):
    the bytes up to the first NUL. -/
def read (mem : List UInt8) : CStr :=
  ⟨mem.takeWhile (· != 0), fun h => by simpa using mem_takeWhile_imp h⟩

theorem ext_bytes {s t : CStr} (h : s.bytes = t.bytes) : s = t := by
  cases s; cases t; simp_all

@[simp] theorem read_bytes (s : CStr) : read s.bytes = s := by
  apply ext_bytes
  simp only [read]
  rw [takeWhile_eq_self_iff]
  intro b hb
  have : b ≠ 0 := fun h => s.noNul (h ▸ hb)
  simpa using this

end CStr

/-! ## Searching a memory region -/

/-- Result of `strchr` on a region: the character was found (bytes before it,
    bytes after it), the string ended first, or the region ended first. -/
inductive Strchr where
  | found (before after : List UInt8)
  | null
  | overrun
  deriving DecidableEq

/-- `strchr(p, c)` on the region that starts at `p`. -/
def strchr (c : UInt8) : List UInt8 → Strchr
  | [] => .overrun
  | b :: bs =>
    if b = c then .found [] bs
    else if b = 0 then .null
    else
      match strchr c bs with
      | .found before after => .found (b :: before) after
      | r => r

theorem strchr_append_found {c : UInt8} {s : List UInt8} (hc : c ∉ s) (h0 : (0 : UInt8) ∉ s)
    (t : List UInt8) : strchr c (s ++ c :: t) = .found s t := by
  induction s with
  | nil => simp [strchr]
  | cons b s ih =>
    simp only [mem_cons, not_or] at hc h0
    have hbc : b ≠ c := fun h => hc.1 h.symm
    have hb0 : b ≠ 0 := fun h => h0.1 h.symm
    simp [strchr, hbc, hb0, ih hc.2 h0.2]

theorem strchr_overrun {c : UInt8} {s : List UInt8} (hc : c ∉ s) (h0 : (0 : UInt8) ∉ s) :
    strchr c s = .overrun := by
  induction s with
  | nil => rfl
  | cons b s ih =>
    simp only [mem_cons, not_or] at hc h0
    have hbc : b ≠ c := fun h => hc.1 h.symm
    have hb0 : b ≠ 0 := fun h => h0.1 h.symm
    simp [strchr, hbc, hb0, ih hc.2 h0.2]

/-! ## Storing into a memory region -/

/-- Store `bs` at offset `p` of the region `mem`.  A store that runs past the end
    of the region extends it: the bytes behind the original end are the memory
    behind the buffer. -/
def memWrite (mem : List UInt8) (p : Nat) (bs : List UInt8) : List UInt8 :=
  mem.take p ++ bs ++ mem.drop (p + bs.length)

theorem length_memWrite {mem : List UInt8} {p : Nat} (hp : p ≤ mem.length) (bs : List UInt8) :
    (memWrite mem p bs).length = max mem.length (p + bs.length) := by
  simp only [memWrite, length_append, length_take, length_drop]
  omega

theorem memWrite_append (pre bs : List UInt8) (n : Nat) :
    memWrite (pre ++ List.replicate n 0) pre.length bs =
      pre ++ bs ++ List.replicate (n - bs.length) 0 := by
  simp [memWrite, drop_append]

end RalinkSdk.Lib
