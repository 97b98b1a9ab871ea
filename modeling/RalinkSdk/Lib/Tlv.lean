import Mathlib.Data.BitVec
import Mathlib.Data.List.Basic

/-!
# Buffers of fixed size and attributes of type, length and value

Memory of fixed size as a type, and the walk over a sequence of attributes with a two byte type
and a two byte length, both with the high byte first.  A pointer into a buffer is what lies
between it and the end of the buffer.  `none` stands for an access outside a buffer.
-/

namespace RalinkSdk.Lib

open List Option

/-! ## Buffers -/

/-- Memory of `n` bytes. -/
structure Buf (n : Nat) where
  bytes : List (BitVec 8)
  size : bytes.length = n
deriving DecidableEq

namespace Buf

variable {n : Nat}

@[ext] theorem ext {b c : Buf n} (h : b.bytes = c.bytes) : b = c := by
  cases b
  cases c
  congr

/-- Memory filled with one byte. -/
def fill (n : Nat) (byte : BitVec 8) : Buf n := ⟨replicate n byte, length_replicate⟩

/-- Copy bytes to the start of the memory. -/
def store (b : Buf n) (src : List (BitVec 8)) : Option (Buf n) :=
  if h : src.length ≤ n then
    some ⟨src ++ b.bytes.drop src.length, by simp [b.size, h]⟩
  else none

variable {src : List (BitVec 8)}

theorem store_of_le (b : Buf n) (h : src.length ≤ n) : ∃ c, b.store src = some c :=
  ⟨_, dif_pos h⟩

/-- The first `m` bytes. -/
def first (b : Buf n) (m : Nat) (h : m ≤ n) : Buf m := ⟨b.bytes.take m, by simp [b.size, h]⟩

/-- The bytes from `i` on. -/
def slice (b : Buf n) (i m : Nat) (h : i + m ≤ n) : Buf m :=
  ⟨(b.bytes.drop i).take m, by simp [b.size]; omega⟩

theorem store_of_length (b : Buf n) (h : src.length = n) : b.store src = some ⟨src, h⟩ := by
  have hdrop : b.bytes.drop src.length = [] := drop_eq_nil_of_le (by rw [b.size, h])
  simp [store, h.le, hdrop]

@[simp] theorem store_bytes (b c : Buf n) : b.store c.bytes = some c := b.store_of_length c.size

theorem bytes_of_store {b c : Buf n} (h : b.store src = some c) :
    c.bytes = src ++ b.bytes.drop src.length := by
  unfold store at h
  split at h
  · rw [← some.inj h]
  · cases h

end Buf

def readBytes (p : List (BitVec 8)) (n : Nat) : Option (List (BitVec 8)) :=
  if n ≤ p.length then some (p.take n) else none

@[simp] theorem readBytes_append (v rest : List (BitVec 8)) :
    readBytes (v ++ rest) v.length = some v := by
  simp [readBytes]

theorem readBytes_append_of_length {v : List (BitVec 8)} {k : Nat} (h : v.length = k)
    (rest : List (BitVec 8)) : readBytes (v ++ rest) k = some v := by
  rw [← h, readBytes_append]

/-! ## Attributes -/

/-- The two bytes of a number, the high byte first. -/
def be16 (x : BitVec 16) : List (BitVec 8) := [x.extractLsb' 8 8, x.extractLsb' 0 8]

/-- An attribute: its type and its value. -/
structure Attr where
  type : BitVec 16
  value : List (BitVec 8)
deriving DecidableEq

/-- The bytes of an attribute: type, length, value. -/
def Attr.encode (a : Attr) : List (BitVec 8) :=
  be16 a.type ++ be16 (BitVec.ofNat 16 a.value.length) ++ a.value

/-- The bytes of a list of attributes. -/
def encodeAll (as : List Attr) : List (BitVec 8) := as.flatMap Attr.encode

/-- The length of the value fits the length field. -/
def Attr.Fits (a : Attr) : Prop := a.value.length < 2 ^ 16

theorem append_be16 (x : BitVec 16) : x.extractLsb' 8 8 ++ x.extractLsb' 0 8 = x := by
  apply BitVec.eq_of_getLsbD_eq
  intro i hi
  rw [BitVec.getLsbD_append, BitVec.getLsbD_extractLsb', BitVec.getLsbD_extractLsb']
  by_cases h : i < 8
  · simp [h]
  · have hback : 8 + (i - 8) = i := by omega
    have hhigh : i - 8 < 8 := by omega
    simp [h, hback, hhigh]

@[simp] theorem length_be16 (x : BitVec 16) : (be16 x).length = 2 := rfl

theorem be16_append (high low : BitVec 8) : be16 (high ++ low) = [high, low] := by
  have hlow : (high ++ low).extractLsb' 0 8 = low := by
    apply BitVec.eq_of_getLsbD_eq
    intro i hi
    rw [BitVec.getLsbD_extractLsb', BitVec.getLsbD_append]
    simp [hi]
  have hhigh : (high ++ low).extractLsb' 8 8 = high := by
    apply BitVec.eq_of_getLsbD_eq
    intro i hi
    rw [BitVec.getLsbD_extractLsb', BitVec.getLsbD_append]
    simp [hi]
  rw [be16, hhigh, hlow]

@[simp] theorem Attr.length_encode (a : Attr) : a.encode.length = 4 + a.value.length := by
  simp [Attr.encode, be16]
  omega

@[simp] theorem encodeAll_nil : encodeAll [] = [] := rfl

@[simp] theorem encodeAll_cons (a : Attr) (as : List Attr) :
    encodeAll (a :: as) = a.encode ++ encodeAll as := rfl

@[simp] theorem encodeAll_append (as bs : List Attr) :
    encodeAll (as ++ bs) = encodeAll as ++ encodeAll bs := flatMap_append

variable {a : Attr} {as : List Attr}

theorem length_pos_of_ne (h : a.value ≠ [] ∨ as ≠ []) :
    0 < a.value.length + (encodeAll as).length := by
  cases h with
  | inl hvalue =>
    have hpos := length_pos_of_ne_nil hvalue
    omega
  | inr has =>
    obtain ⟨b, bs, rfl⟩ := exists_cons_of_ne_nil has
    rw [encodeAll_cons, length_append, Attr.length_encode]
    omega

theorem fits_of_length (h : (encodeAll as).length < 2 ^ 16) : ∀ a ∈ as, a.Fits := by
  induction as with
  | nil => simp
  | cons b as ih =>
    rw [encodeAll_cons, length_append, Attr.length_encode] at h
    intro a ha
    cases ha with
    | head => exact lt_of_le_of_lt (by omega) h
    | tail _ ha => exact ih (by omega) a ha

/-! ## The walk -/

/-- What a handler makes of an attribute: it goes on behind so many bytes of the value, or it
    ends the walk. -/
inductive Verdict (σ : Type) (ρ : Type) where
  | next (skip : Nat) (s : σ)
  | stop (r : ρ)

variable {σ ρ : Type}

/-- The type and the length at a pointer, and the pointer to the value. -/
def readHeader : List (BitVec 8) → Option (BitVec 16 × Nat × List (BitVec 8))
  | t₁ :: t₀ :: l₁ :: l₀ :: rest => some (t₁ ++ t₀, (l₁ ++ l₀).toNat, rest)
  | _ => none

theorem readHeader_encode (hfit : a.Fits) (rest : List (BitVec 8)) :
    readHeader (a.encode ++ rest) = some (a.type, a.value.length, a.value ++ rest) := by
  have hlen : (BitVec.ofNat 16 a.value.length).toNat = a.value.length :=
    (BitVec.toNat_ofNat _ _).trans (Nat.mod_eq_of_lt hfit)
  show some _ = some _
  rw [append_be16, append_be16, hlen]
  rfl

theorem encodeAll_injective {as bs : List Attr} (has : ∀ a ∈ as, a.Fits) (hbs : ∀ b ∈ bs, b.Fits)
    (h : encodeAll as = encodeAll bs) : as = bs := by
  induction as generalizing bs with
  | nil =>
    cases bs with
    | nil => rfl
    | cons b bs => cases congrArg List.length h
  | cons a as ih =>
    cases bs with
    | nil => cases congrArg List.length h
    | cons b bs =>
      have ha := readHeader_encode (has a mem_cons_self) (encodeAll as)
      have hb := readHeader_encode (hbs b mem_cons_self) (encodeAll bs)
      rw [← encodeAll_cons, h, encodeAll_cons, hb] at ha
      injection ha with heq
      obtain ⟨htype, hlen, hrest⟩ : b.type = a.type ∧ b.value.length = a.value.length ∧
          b.value ++ encodeAll bs = a.value ++ encodeAll as := by
        simpa only [Prod.mk.injEq] using heq
      obtain ⟨hvalue, htail⟩ := append_inj hrest hlen
      rw [ih (fun x hx => has x (mem_cons_of_mem a hx))
        (fun x hx => hbs x (mem_cons_of_mem b hx)) htail.symm]
      cases a
      cases b
      cases htype
      cases hvalue
      rfl

/-- The walk over the attributes at a pointer, with `length` bytes to go.  The handler gets the
    type, the length and a pointer to the value. -/
def walk (handle : BitVec 16 → Nat → List (BitVec 8) → σ → Option (Verdict σ ρ)) (length : Nat)
    (p : List (BitVec 8)) (s : σ) : Option (σ ⊕ ρ) :=
  if 4 < length then do
    let (type, len, rest) ← readHeader p
    match ← handle type len rest s with
    | .next skip s => walk handle (length - 4 - skip) (rest.drop skip) s
    | .stop r => some (.inr r)
  else some (.inl s)
termination_by length

variable {handle : BitVec 16 → Nat → List (BitVec 8) → σ → Option (Verdict σ ρ)} {length : Nat}

theorem walk_stop (h : length ≤ 4) (p : List (BitVec 8)) (s : σ) :
    walk handle length p s = some (.inl s) := by
  rw [walk, if_neg (by omega)]

/-- **Walk step**: the attribute at the pointer goes to the handler, with what follows it. -/
theorem walk_cons
    (hfit : a.Fits) {n : Nat} (hn : 0 < a.value.length + n) (rest : List (BitVec 8)) (s : σ) :
    walk handle (4 + a.value.length + n) (a.encode ++ rest) s =
      (handle a.type a.value.length (a.value ++ rest) s).bind fun v =>
        match v with
        | .next skip s => walk handle (a.value.length + n - skip) ((a.value ++ rest).drop skip) s
        | .stop r => some (.inr r) := by
  have hsub : 4 + a.value.length + n - 4 = a.value.length + n := by omega
  rw [walk, if_pos (by omega), readHeader_encode hfit, hsub]
  rfl

/-- **Frame rule**: what the handler preserves wherever it goes on, the walk preserves unless it is
    ended. -/
theorem walk_preserves {P : σ → Prop}
    (hhandle : ∀ type len p s skip s', P s → handle type len p s = some (.next skip s') → P s')
    {p : List (BitVec 8)} {s s' : σ} (hs : P s)
    (h : walk handle length p s = some (.inl s')) : P s' := by
  -- every turn takes four bytes at least
  induction length using Nat.strong_induction_on generalizing p s with
  | _ length ih =>
    rw [walk] at h
    split_ifs at h with hgo
    · obtain ⟨⟨type, len, rest⟩, -, h⟩ := bind_eq_some_iff.mp h
      obtain ⟨v, hv, h⟩ := bind_eq_some_iff.mp h
      cases v with
      | next skip s₁ => exact ih (length - 4 - skip) (by omega) (hhandle _ _ _ _ _ _ hs hv) h
      | stop r => cases h
    · cases h
      exact hs

variable {rest : List (BitVec 8)}

theorem walk_next (hfit : a.Fits) (hlong : a.value ≠ [] ∨ as ≠ []) {s s' : σ}
    (hnext : handle a.type a.value.length (a.value ++ (encodeAll as ++ rest)) s =
      some (.next a.value.length s')) :
    walk handle (encodeAll (a :: as)).length (encodeAll (a :: as) ++ rest) s =
      walk handle (encodeAll as).length (encodeAll as ++ rest) s' := by
  have hpos : 0 < a.value.length + (encodeAll as).length := length_pos_of_ne hlong
  rw [encodeAll_cons, length_append, Attr.length_encode, append_assoc, walk_cons hfit hpos, hnext]
  simp

theorem walk_enter (hfit : a.Fits) {bs : List Attr} (hvalue : a.value = encodeAll bs)
    (hlong : a.value ≠ [] ∨ as ≠ []) {s s' : σ}
    (hnext : handle a.type a.value.length (a.value ++ (encodeAll as ++ rest)) s =
      some (.next 0 s')) :
    walk handle (encodeAll (a :: as)).length (encodeAll (a :: as) ++ rest) s =
      walk handle (encodeAll (bs ++ as)).length (encodeAll (bs ++ as) ++ rest) s' := by
  have hpos : 0 < a.value.length + (encodeAll as).length := length_pos_of_ne hlong
  rw [encodeAll_cons, length_append, Attr.length_encode, append_assoc, walk_cons hfit hpos, hnext]
  simp [hvalue]

/-- The walk of a handler that always goes on behind the value. -/
def scan (handle : BitVec 16 → Nat → List (BitVec 8) → σ → Option σ) (length : Nat)
    (p : List (BitVec 8)) (s : σ) : Option σ :=
  if 4 < length then do
    let (type, len, rest) ← readHeader p
    let s ← handle type len rest s
    scan handle (length - 4 - len) (rest.drop len) s
  else some s
termination_by length

/-- **Frame rule**: what the handler preserves for every attribute, the walk preserves. -/
theorem scan_preserves {handle : BitVec 16 → Nat → List (BitVec 8) → σ → Option σ} {P : σ → Prop}
    (hhandle : ∀ type len p s s', P s → handle type len p s = some s' → P s')
    {p : List (BitVec 8)} {s s' : σ} (hs : P s) (h : scan handle length p s = some s') : P s' := by
  -- every turn takes four bytes at least
  induction length using Nat.strong_induction_on generalizing p s with
  | _ length ih =>
    rw [scan] at h
    split_ifs at h with hgo
    · obtain ⟨⟨type, len, rest⟩, -, h⟩ := bind_eq_some_iff.mp h
      obtain ⟨s₁, h₁, h⟩ := bind_eq_some_iff.mp h
      exact ih (length - 4 - len) (by omega) (hhandle type len rest s s₁ hs h₁) h
    · obtain rfl := some.inj h
      exact hs

/-- One call of the handler for each attribute, with what follows the value. -/
def scanAttrs (handle : BitVec 16 → Nat → List (BitVec 8) → σ → Option σ)
    (rest : List (BitVec 8)) : List Attr → σ → Option σ
  | [], s => some s
  | a :: as, s =>
    (handle a.type a.value.length (a.value ++ (encodeAll as ++ rest)) s).bind
      (scanAttrs handle rest as)

theorem scanAttrs_append (handle : BitVec 16 → Nat → List (BitVec 8) → σ → Option σ)
    (rest : List (BitVec 8)) (as bs : List Attr) (s : σ) : scanAttrs handle rest (as ++ bs) s =
      (scanAttrs handle (encodeAll bs ++ rest) as s).bind (scanAttrs handle rest bs) := by
  induction as generalizing s with
  | nil => rfl
  | cons a as ih =>
    rw [cons_append, scanAttrs, scanAttrs, bind_assoc, encodeAll_append, append_assoc]
    congr 1
    funext s
    exact ih s

theorem scanAttrs_of_ignored {handle : BitVec 16 → Nat → List (BitVec 8) → σ → Option σ}
    (hignored : ∀ a ∈ as, ∀ len p s, handle a.type len p s = some s) (s : σ) :
    scanAttrs handle rest as s = some s := by
  induction as with
  | nil => rfl
  | cons a as ih =>
    rw [scanAttrs, hignored a mem_cons_self]
    exact ih fun b hb => hignored b (mem_cons_of_mem a hb)

theorem scan_stop {handle : BitVec 16 → Nat → List (BitVec 8) → σ → Option σ}
    (h : length ≤ 4) (p : List (BitVec 8)) (s : σ) : scan handle length p s = some s := by
  rw [scan, if_neg (by omega)]

/-- **Scan lemma**: over the bytes of a list of attributes the handler is called for each of
    them.  The last one must have a value, since the walk ends with four bytes to go. -/
theorem scan_encode {handle : BitVec 16 → Nat → List (BitVec 8) → σ → Option σ}
    (hfit : ∀ a ∈ as, a.Fits) (hlast : ∀ a ∈ as.getLast?, a.value ≠ []) (rest : List (BitVec 8))
    (s : σ) :
    scan handle (encodeAll as).length (encodeAll as ++ rest) s = scanAttrs handle rest as s := by
  induction as generalizing s with
  | nil => exact scan_stop (by simp) _ _
  | cons a as ih =>
    have hlong : a.value ≠ [] ∨ as ≠ [] := by
      cases as with
      | nil => exact .inl (hlast a (by simp))
      | cons b as => exact .inr (cons_ne_nil b as)
    have hgo : 4 < (encodeAll (a :: as)).length := by
      have hpos := length_pos_of_ne hlong
      rw [encodeAll_cons, length_append, Attr.length_encode]
      omega
    have hsub : (encodeAll (a :: as)).length - 4 - a.value.length = (encodeAll as).length := by
      rw [encodeAll_cons, length_append, Attr.length_encode]
      omega
    have htail : ∀ b ∈ as.getLast?, b.value ≠ [] := by
      cases as with
      | nil => simp
      | cons b as => simpa using hlast
    have hrest := fun s => ih (fun b hb => hfit b (mem_cons_of_mem a hb)) htail s
    have hheader : readHeader (encodeAll (a :: as) ++ rest) =
        some (a.type, a.value.length, a.value ++ (encodeAll as ++ rest)) := by
      rw [encodeAll_cons, append_assoc, readHeader_encode (hfit a mem_cons_self)]
    rw [scan, if_pos hgo, hheader, scanAttrs]
    simp only [bind, Option.bind, hsub, drop_left, hrest]

end RalinkSdk.Lib
