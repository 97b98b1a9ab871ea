import Mathlib
import RalinkSdk.Crypt.AesCbc

/-!
# Wrapping of key data: AES key wrap and ARC4

`AES_Key_Wrap` and `AES_Key_Unwrap` for arbitrary functions `E` and `D` on blocks in the place of
`RT_AES_Encrypt` and `RT_AES_Decrypt`, and the stream cipher of `TKIP_GTK_KEY_WRAP`.

## Source

`common/crypt_aes.c`, `common/crypt_arc4.c`, `common/cmm_tkip.c`.
-/

namespace RalinkSdk.Crypt

open Lib List Function

abbrev Byte := BitVec 8

/-! ## Blocks of eight bytes -/

/-- Two halves of a block. -/
def joinHalves (a b : Buf 8) : Buf 16 := ⟨a.bytes ++ b.bytes, by simp [a.size, b.size]⟩

def firstHalf (b : Buf 16) : Buf 8 := b.slice 0 8 (by decide)

def secondHalf (b : Buf 16) : Buf 8 := b.slice 8 8 (by decide)

@[simp] theorem firstHalf_joinHalves (a b : Buf 8) : firstHalf (joinHalves a b) = a := by
  apply Buf.ext
  simp [firstHalf, joinHalves, Buf.slice, take_left' a.size]

@[simp] theorem secondHalf_joinHalves (a b : Buf 8) : secondHalf (joinHalves a b) = b := by
  apply Buf.ext
  simp [secondHalf, joinHalves, Buf.slice, drop_left' a.size, b.size]

@[simp] theorem joinHalves_halves (b : Buf 16) : joinHalves (firstHalf b) (secondHalf b) = b := by
  apply Buf.ext
  have hrest : (b.bytes.drop 8).take 8 = b.bytes.drop 8 :=
    take_of_length_le (by simp [b.size])
  simp [firstHalf, secondHalf, joinHalves, Buf.slice, hrest]

def wholeBlocks (text : List Byte) : List (Buf 8) × List Byte :=
  if h : 8 ≤ text.length then
    (⟨text.take 8, by simp [h]⟩ :: (wholeBlocks (text.drop 8)).1, (wholeBlocks (text.drop 8)).2)
  else ([], text)
termination_by text.length
decreasing_by simp; omega

def blockBytes (blocks : List (Buf 8)) : List Byte := blocks.flatMap Buf.bytes

theorem blockBytes_wholeBlocks (text : List Byte) :
    blockBytes (wholeBlocks text).1 ++ (wholeBlocks text).2 = text := by
  induction text using wholeBlocks.induct with
  | case1 text h ih =>
    rw [wholeBlocks, dif_pos h]
    simp only [blockBytes, flatMap_cons, append_assoc] at ih ⊢
    rw [ih, take_append_drop]
  | case2 text h =>
    rw [wholeBlocks, dif_neg h]
    simp [blockBytes]

theorem length_rest_wholeBlocks (text : List Byte) : (wholeBlocks text).2.length < 8 := by
  induction text using wholeBlocks.induct with
  | case1 text h ih =>
    rw [wholeBlocks, dif_pos h]
    exact ih
  | case2 text h =>
    rw [wholeBlocks, dif_neg h]
    simpa using h

theorem wholeBlocks_append (blocks : List (Buf 8)) {rest : List Byte} (h : rest.length < 8) :
    wholeBlocks (blockBytes blocks ++ rest) = (blocks, rest) := by
  induction blocks with
  | nil =>
    rw [wholeBlocks, dif_neg (by simpa [blockBytes] using h)]
    simp [blockBytes]
  | cons b blocks ih =>
    have hbytes : blockBytes (b :: blocks) ++ rest = b.bytes ++ (blockBytes blocks ++ rest) := by
      simp [blockBytes]
    rw [hbytes, wholeBlocks, dif_pos (by simp [b.size])]
    simp only [drop_left' b.size, take_left' b.size, ih]

theorem length_blockBytes (blocks : List (Buf 8)) :
    (blockBytes blocks).length = 8 * blocks.length := by
  induction blocks with
  | nil => rfl
  | cons b blocks ih =>
    simp only [blockBytes, flatMap_cons, length_append, length_cons, b.size] at ih ⊢
    omega

/-! ## AES key wrap -/

section

variable (E D : Buf 16 → Buf 16)

/-- `IV[7] ^= t` -/
def xorCount (iv : Buf 8) (t : Nat) : Buf 8 :=
  xorBuf iv ⟨replicate 7 0 ++ [BitVec.ofNat 8 t], by simp⟩

def keyWrapStep (t : Nat) (iv r : Buf 8) : Buf 8 × Buf 8 :=
  let blockB := E (joinHalves iv r)
  (xorCount (firstHalf blockB) t, secondHalf blockB)

def keyUnwrapStep (t : Nat) (iv r : Buf 8) : Buf 8 × Buf 8 :=
  let blockB := D (joinHalves (xorCount iv t) r)
  (firstHalf blockB, secondHalf blockB)

/-- The inner loop of `AES_Key_Wrap`, from block `i` on; `n` is `Number_Of_Block`. -/
def keyWrapPass (n j : Nat) : Nat → Buf 8 → List (Buf 8) → Buf 8 × List (Buf 8)
  | _, iv, [] => (iv, [])
  | i, iv, r :: rs =>
    let (iv, r) := keyWrapStep E (n * j + i + 1) iv r
    let (iv, rs) := keyWrapPass n j (i + 1) iv rs
    (iv, r :: rs)

/-- The inner loop of `AES_Key_Unwrap`, down to block `i`. -/
def keyUnwrapPass (n j : Nat) : Nat → Buf 8 → List (Buf 8) → Buf 8 × List (Buf 8)
  | _, iv, [] => (iv, [])
  | i, iv, r :: rs =>
    let (iv, rs) := keyUnwrapPass n j (i + 1) iv rs
    let (iv, r) := keyUnwrapStep D (n * j + i + 1) iv r
    (iv, r :: rs)

def defaultIv : Buf 8 := Buf.fill 8 0xa6

def aesKeyWrap (plainText : List Byte) : List Byte :=
  let (blocks, rest) := wholeBlocks plainText
  let n := blocks.length
  let (iv, blocks) := (range 6).foldl
    (fun (iv, blocks) j => keyWrapPass E n j 0 iv blocks) (defaultIv, blocks)
  iv.bytes ++ (blockBytes blocks ++ rest)

/-- `AES_Key_Unwrap`.  A text without room for the initial value makes the allocation fail, and
    the length stays 0. -/
def aesKeyUnwrap (cipherText : List Byte) : List Byte :=
  if h : 8 ≤ cipherText.length then
    let (blocks, rest) := wholeBlocks (cipherText.drop 8)
    let n := blocks.length
    let (_, blocks) := (range 6).reverse.foldl
      (fun (iv, blocks) j => keyUnwrapPass D n j 0 iv blocks)
      (⟨cipherText.take 8, by simp [h]⟩, blocks)
    blockBytes blocks ++ rest
  else []

variable {E D}

theorem length_keyWrapPass (n j i : Nat) (iv : Buf 8) (rs : List (Buf 8)) :
    (keyWrapPass E n j i iv rs).2.length = rs.length := by
  induction rs generalizing i iv with
  | nil => rfl
  | cons r rs ih => simp [keyWrapPass, ih]

theorem keyUnwrapStep_wrapStep (h : ∀ b, D (E b) = b) (t : Nat) (iv r : Buf 8) :
    keyUnwrapStep D t (keyWrapStep E t iv r).1 (keyWrapStep E t iv r).2 = (iv, r) := by
  simp [keyUnwrapStep, keyWrapStep, xorCount, xorBuf_cancel, h]

theorem keyUnwrapPass_wrapPass (h : ∀ b, D (E b) = b) (n j i : Nat) (iv : Buf 8)
    (rs : List (Buf 8)) :
    keyUnwrapPass D n j i (keyWrapPass E n j i iv rs).1 (keyWrapPass E n j i iv rs).2 =
      (iv, rs) := by
  induction rs generalizing i iv with
  | nil => rfl
  | cons r rs ih =>
    have hstep := keyUnwrapStep_wrapStep h (n * j + i + 1) iv r
    simp only [keyWrapPass, keyUnwrapPass, ih]
    rw [hstep]

theorem keyUnwrapRounds_wrapRounds (h : ∀ b, D (E b) = b) (n : Nat) (js : List Nat)
    (p : Buf 8 × List (Buf 8)) :
    js.reverse.foldl (fun (iv, blocks) j => keyUnwrapPass D n j 0 iv blocks)
      (js.foldl (fun (iv, blocks) j => keyWrapPass E n j 0 iv blocks) p) = p := by
  induction js generalizing p with
  | nil => rfl
  | cons j js ih =>
    rw [foldl_cons, reverse_cons, foldl_append, ih]
    exact keyUnwrapPass_wrapPass h n j 0 p.1 p.2

theorem length_keyWrapRounds (n : Nat) (js : List Nat) (p : Buf 8 × List (Buf 8)) :
    (js.foldl (fun (iv, blocks) j => keyWrapPass E n j 0 iv blocks) p).2.length = p.2.length := by
  induction js generalizing p with
  | nil => rfl
  | cons j js ih =>
    rw [foldl_cons, ih]
    exact length_keyWrapPass n j 0 p.1 p.2

/-- **Unwrapping** gives back what was wrapped. -/
theorem aesKeyUnwrap_wrap (h : ∀ b, D (E b) = b) (plainText : List Byte) :
    aesKeyUnwrap D (aesKeyWrap E plainText) = plainText := by
  obtain ⟨blocks, rest, hwhole⟩ : ∃ blocks rest, wholeBlocks plainText = (blocks, rest) :=
    ⟨_, _, rfl⟩
  have hrest : rest.length < 8 := by
    have hlt := length_rest_wholeBlocks plainText
    rwa [hwhole] at hlt
  have hplain := blockBytes_wholeBlocks plainText
  have hround := keyUnwrapRounds_wrapRounds h blocks.length (range 6) (defaultIv, blocks)
  have hlen := length_keyWrapRounds (E := E) blocks.length (range 6) (defaultIv, blocks)
  rw [hwhole] at hplain
  simp only [aesKeyWrap, hwhole]
  set wrapped := (range 6).foldl
    (fun (iv, blocks') j => keyWrapPass E blocks.length j 0 iv blocks') (defaultIv, blocks)
    with hwrapped
  rw [aesKeyUnwrap, dif_pos (by simp [wrapped.1.size])]
  simp only [drop_left' wrapped.1.size, take_left' wrapped.1.size,
    wholeBlocks_append wrapped.2 hrest, hlen]
  rw [hround]
  exact hplain

theorem length_aesKeyWrap (plainText : List Byte) :
    (aesKeyWrap E plainText).length = plainText.length + 8 := by
  obtain ⟨blocks, rest, hwhole⟩ : ∃ blocks rest, wholeBlocks plainText = (blocks, rest) :=
    ⟨_, _, rfl⟩
  have hlen := length_keyWrapRounds (E := E) blocks.length (range 6) (defaultIv, blocks)
  have hplain := congrArg List.length (blockBytes_wholeBlocks plainText)
  rw [hwhole, length_append, length_blockBytes] at hplain
  simp only at hlen hplain
  simp only [aesKeyWrap, hwhole, length_append, length_blockBytes, hlen, Buf.size]
  omega

end

/-! ## ARC4 -/

structure Arc4Ctx where
  keyBlock : Byte → Byte
  blockIndex1 : Byte
  blockIndex2 : Byte

/-- One round of the key schedule. -/
def arc4Schedule (key : List Byte) (s : (Byte → Byte) × Byte) (blockIndex : Nat) :
    (Byte → Byte) × Byte :=
  let i := BitVec.ofNat 8 blockIndex
  let temp := s.1 i
  let swapIndex := s.2 + temp + key.getD (blockIndex % key.length) 0
  (update (update s.1 i (s.1 swapIndex)) swapIndex temp, swapIndex)

def arc4Init (key : List Byte) : Arc4Ctx where
  keyBlock := ((range 256).foldl (arc4Schedule key) (id, 0)).1
  blockIndex1 := 0
  blockIndex2 := 0

/-- One step of the key stream: the context after it, and the stream's byte. -/
def arc4Next (ctx : Arc4Ctx) : Arc4Ctx × Byte :=
  let i := ctx.blockIndex1 + 1
  let temp := ctx.keyBlock i
  let j := ctx.blockIndex2 + temp
  let block := update (update ctx.keyBlock i (ctx.keyBlock j)) j temp
  (⟨block, i, j⟩, block (temp + block i))

def arc4Compute (ctx : Arc4Ctx) : List Byte → List Byte
  | [] => []
  | b :: input => (b ^^^ (arc4Next ctx).2) :: arc4Compute (arc4Next ctx).1 input

def arc4DiscardKeyLength (ctx : Arc4Ctx) (length : Nat) : Arc4Ctx :=
  (fun ctx => (arc4Next ctx).1)^[length] ctx

/-- `TKIP_GTK_KEY_WRAP`, and `TKIP_GTK_KEY_UNWRAP` which calls it: the key is the IV with the KEK
    behind it, and the first 256 bytes of the stream are dropped. -/
def tkipGtkKeyWrap (kek iv input : List Byte) : List Byte :=
  arc4Compute (arc4DiscardKeyLength (arc4Init (iv ++ kek)) 256) input

theorem arc4Compute_involutive (ctx : Arc4Ctx) (input : List Byte) :
    arc4Compute ctx (arc4Compute ctx input) = input := by
  induction input generalizing ctx with
  | nil => rfl
  | cons b input ih => simp [arc4Compute, ih]

@[simp] theorem length_arc4Compute (ctx : Arc4Ctx) (input : List Byte) :
    (arc4Compute ctx input).length = input.length := by
  induction input generalizing ctx with
  | nil => rfl
  | cons b input ih => simp [arc4Compute, ih]

end RalinkSdk.Crypt
