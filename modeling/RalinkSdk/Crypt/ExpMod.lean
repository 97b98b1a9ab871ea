import RalinkSdk.Crypt.BigInteger

/-!
# Modular exponentiation

`BigInteger_Montgomery_ExpMod` with the division and the Montgomery reduction that it calls.  The
exponentiation goes through the exponent from the high byte down, four bits at a time, with the
powers up to the fifteenth in a table.

## Source

`common/crypt_biginteger.c`
-/

namespace RalinkSdk.Crypt

open Function

open Lib

namespace BigInteger

/-! ## Division -/

/-- What the loops of `BigInteger_Div` change. -/
structure Division where
  result : BigInteger
  remainder : BigInteger
  temp : BigInteger
  temp2 : BigInteger
  mulBI : BigInteger

/-- A word of an array is written. -/
def write (bi : BigInteger) (i : Nat) (x : BitVec 32) : Option BigInteger :=
  if i < bi.integerArray.length then some { bi with integerArray := bi.integerArray.set i x }
  else none

/-- The end of the inner loop of `BigInteger_Div`: the multiple is taken from the remainder. -/
def takeMultiple (second : BigInteger) (s : Division) : Option Division := do
  let temp ← mul second s.mulBI s.temp
  let temp2 ← sub s.remainder temp s.temp2
  let remainder ← copy temp2 s.remainder
  let temp2 ← add s.result s.mulBI temp2
  let result ← copy temp2 s.result
  some { s with temp, temp2, remainder, result }

/-- The digit `MulIndex` is written to `pMulBI`; 0x100 at the end of a word goes to the next one. -/
def placeDigit (mulBI : BigInteger) (shiftIndex arrayIndex mulIndex : Nat) : Option BigInteger := do
  let mulBI ← if 0xFF < mulIndex ∧ shiftIndex = 3 then mulBI.write (arrayIndex + 1) 1
    else some mulBI
  mulBI.write arrayIndex (BitVec.ofNat 32 mulIndex <<< (8 * shiftIndex))

/-- `MulIndex - 1` is written in its place. -/
def lowerDigit (mulBI : BigInteger) (shiftIndex arrayIndex mulIndex : Nat) : Option BigInteger := do
  let mulBI ← if mulIndex = 0x100 ∧ shiftIndex = 3 then mulBI.write (arrayIndex + 1) 0
    else some mulBI
  mulBI.write arrayIndex (BitVec.ofNat 32 (mulIndex - 1) <<< (8 * shiftIndex))

/-- The inner loop of `BigInteger_Div` with `n` passes left, the last of them for `0x101`. -/
def multiples (second : BigInteger) (shiftIndex : Nat) : Nat → Nat → Division → Option Division
  | 0, _, s => some s
  | n + 1, arrayIndex, s => do
    let mulIndex := 0x102 - (n + 1)
    let mulBI ← placeDigit s.mulBI shiftIndex arrayIndex mulIndex
    let temp ← mul second mulBI s.temp
    let compareResult := unsignedCompare s.remainder temp
    if compareResult ≠ .gt then
      if mulIndex ≤ 1 then some { s with mulBI, temp }
      else if compareResult = .eq then takeMultiple second { s with mulBI, temp }
      else do
        let mulBI ← lowerDigit mulBI shiftIndex arrayIndex mulIndex
        takeMultiple second { s with mulBI, temp }
    else if 0x100 ≤ mulIndex ∧ shiftIndex = 3 then do
      let mulBI ← mulBI.write arrayIndex 0
      let mulBI ← mulBI.write (arrayIndex + 1) 0
      multiples second shiftIndex n (arrayIndex + 1) { s with mulBI, temp }
    else do
      let mulBI ← mulBI.write arrayIndex 0
      multiples second shiftIndex n arrayIndex { s with mulBI, temp }

/-- The outer loop of `BigInteger_Div`, from `Index = n - 1` down. -/
def divLoop (first second : BigInteger) (computeSize : Nat) (secondHighByte : BitVec 8) :
    Nat → Division → Option Division
  | 0, s => some s
  | index + 1, s =>
    if unsignedCompare s.remainder second = .lt then some s
    else if (BitVec.ofNat 32 (second.integerLength + index) -
        BitVec.ofNat 32 s.remainder.integerLength).toNat ≤ 1 then
      let mulBI := s.mulBI.allocSize (index + 1)
      let arrayIndex := (index - 1) / 4
      let shiftIndex := (if index % 4 = 0 then 4 else index % 4) - 1
      let position := first.integerLength + index - computeSize
      let mulStart := (s.remainder.getByteValue (position + 1)).toNat * 256 +
        (s.remainder.getByteValue position).toNat
      if mulStart < secondHighByte.toNat then
        divLoop first second computeSize secondHighByte index { s with mulBI }
      else if secondHighByte = 0 then none
      else do
        let start := min (mulStart / secondHighByte.toNat) 0x100
        let s ← multiples second shiftIndex (0x102 - start) arrayIndex { s with mulBI }
        divLoop first second computeSize secondHighByte index s
    else divLoop first second computeSize secondHighByte index s

/-- `BigInteger_Div`: the result and the remainder. -/
def div (first second result remainder : BigInteger) : Option (BigInteger × BigInteger) :=
  if first.integerArray = [] ∨ second.integerArray = [] ∨ second.isByte 0 then
    some (result, remainder)
  else do
    let (result, remainder) ←
      if second.isByte 1 then do
        let result ← copy first result
        some (result, bin2BI [0] remainder)
      else
        match unsignedCompare first second with
        | .eq => some (bin2BI [1] result, bin2BI [0] remainder)
        | .lt => do
          let remainder ← copy first remainder
          some (bin2BI [0] result, remainder)
        | .gt => do
          let computeSize := first.integerLength - second.integerLength + 1
          let result := result.allocSize computeSize
          let remainder ← copy first (remainder.allocSize second.integerLength)
          let temp := init.allocSize (2 * first.integerLength)
          let secondHighByte := second.getByteValue second.integerLength
          let s ← divLoop first second computeSize secondHighByte (computeSize + 1)
            ⟨result, remainder, temp, temp, temp⟩
          some (s.result, s.remainder)
    let signed := first.signed * second.signed
    some ({ result with signed }.clearHighBits, { remainder with signed }.clearHighBits)

/-! ## Montgomery reduction -/

/-- The first loop of `BigInteger_Montgomery_Reduction`, on the memory from `Point_Result` on. -/
def reductionLoop (p : List (BitVec 32)) : Nat → List (BitVec 32) → Option (List (BitVec 32))
  | 0, memory => some memory
  | _ + 1, [] => none
  | n + 1, r :: memory => do
    let memory ← chain (rowStep r.toNat) carryOn p (r :: memory) 0
    let rest ← reductionLoop p n (memory.drop 1)
    some (memory.take 1 ++ rest)

/-- `BigInteger_Montgomery_Reduction` up to the comparison with `P`. -/
def montgomeryLoops (a p result : BigInteger) (bitsOfR : Nat) : Option BigInteger := do
  let result ← copy a (result.allocSize (a.integerLength + p.integerLength + 20))
  let loopCount := bitsOfR / 32
  let array ← reductionLoop p.words loopCount result.integerArray
  let array ← if array.length < 2 * loopCount + 1 then none
    else some ((array.drop loopCount).take (loopCount + 1) ++ array.drop (loopCount + 1))
  let arrayLength := if array.getD loopCount 0 ≠ 0 then loopCount + 1 else loopCount
  some { result with
    integerArray := array
    arrayLength
    integerLength := arrayLength * 4 }.clearHighBits

/-- `BigInteger_Montgomery_Reduction`, which makes no use of `pBI_R`. -/
def montgomeryReduction (a p result : BigInteger) (bitsOfR : Nat) (scratch : Scratch) :
    Option (BigInteger × Scratch) := do
  let result ← montgomeryLoops a p result bitsOfR
  if unsignedCompare result p = .lt then some (result.clearHighBits, scratch)
  else do
    let u ← sub result p scratch.u
    let result ← copy u result
    some (result.clearHighBits, { scratch with u })

end BigInteger

/-! ## Exponentiation -/

open BigInteger

def wpsDhPValue : List (BitVec 8) :=
  [0xFF, 0xFF, 0xFF, 0xFF, 0xFF, 0xFF, 0xFF, 0xFF, 0xC9, 0x0F, 0xDA, 0xA2, 0x21, 0x68, 0xC2, 0x34,
    0xC4, 0xC6, 0x62, 0x8B, 0x80, 0xDC, 0x1C, 0xD1, 0x29, 0x02, 0x4E, 0x08, 0x8A, 0x67, 0xCC, 0x74,
    0x02, 0x0B, 0xBE, 0xA6, 0x3B, 0x13, 0x9B, 0x22, 0x51, 0x4A, 0x08, 0x79, 0x8E, 0x34, 0x04, 0xDD,
    0xEF, 0x95, 0x19, 0xB3, 0xCD, 0x3A, 0x43, 0x1B, 0x30, 0x2B, 0x0A, 0x6D, 0xF2, 0x5F, 0x14, 0x37,
    0x4F, 0xE1, 0x35, 0x6D, 0x6D, 0x51, 0xC2, 0x45, 0xE4, 0x85, 0xB5, 0x76, 0x62, 0x5E, 0x7E, 0xC6,
    0xF4, 0x4C, 0x42, 0xE9, 0xA6, 0x37, 0xED, 0x6B, 0x0B, 0xFF, 0x5C, 0xB6, 0xF4, 0x06, 0xB7, 0xED,
    0xEE, 0x38, 0x6B, 0xFB, 0x5A, 0x89, 0x9F, 0xA5, 0xAE, 0x9F, 0x24, 0x11, 0x7C, 0x4B, 0x1F, 0xE6,
    0x49, 0x28, 0x66, 0x51, 0xEC, 0xE4, 0x5B, 0x3D, 0xC2, 0x00, 0x7C, 0xB8, 0xA1, 0x63, 0xBF, 0x05,
    0x98, 0xDA, 0x48, 0x36, 0x1C, 0x55, 0xD3, 0x9A, 0x69, 0x16, 0x3F, 0xA8, 0xFD, 0x24, 0xCF, 0x5F,
    0x83, 0x65, 0x5D, 0x23, 0xDC, 0xA3, 0xAD, 0x96, 0x1C, 0x62, 0xF3, 0x56, 0x20, 0x85, 0x52, 0xBB,
    0x9E, 0xD5, 0x29, 0x07, 0x70, 0x96, 0x96, 0x6D, 0x67, 0x0C, 0x35, 0x4E, 0x4A, 0xBC, 0x98, 0x04,
    0xF1, 0x74, 0x6C, 0x08, 0xCA, 0x23, 0x73, 0x27, 0xFF, 0xFF, 0xFF, 0xFF, 0xFF, 0xFF, 0xFF, 0xFF]

def wpsDhRValue : List (BitVec 8) := 1 :: List.replicate 192 0

def wpsDhXValue : List (BitVec 8) :=
  [0x36, 0xF0, 0x25, 0x5D, 0xDE, 0x97, 0x3D, 0xCB, 0x3B, 0x39, 0x9D, 0x74, 0x7F, 0x23, 0xE3, 0x2E,
    0xD6, 0xFD, 0xB1, 0xF7, 0x75, 0x98, 0x33, 0x8B, 0xFD, 0xF4, 0x41, 0x59, 0xC4, 0xEC, 0x64, 0xDD,
    0xAE, 0xB5, 0xF7, 0x86, 0x71, 0xCB, 0xFB, 0x22, 0x10, 0x6A, 0xE6, 0x4C, 0x32, 0xC5, 0xBC, 0xE4,
    0xCF, 0xD4, 0xF5, 0x92, 0x0D, 0xA0, 0xEB, 0xC8, 0xB0, 0x1E, 0xCA, 0x92, 0x92, 0xAE, 0x3D, 0xBA,
    0x1B, 0x7A, 0x4A, 0x89, 0x9D, 0xA1, 0x81, 0x39, 0x0B, 0xB3, 0xBD, 0x16, 0x59, 0xC8, 0x12, 0x94,
    0xF4, 0x00, 0xA3, 0x49, 0x0B, 0xF9, 0x48, 0x12, 0x11, 0xC7, 0x94, 0x04, 0xA5, 0x76, 0x60, 0x5A,
    0x51, 0x60, 0xDB, 0xEE, 0x83, 0xB4, 0xE0, 0x19, 0xB6, 0xD7, 0x99, 0xAE, 0x13, 0x1B, 0xA4, 0xC2,
    0x3D, 0xFF, 0x83, 0x47, 0x5E, 0x9C, 0x40, 0xFA, 0x67, 0x25, 0xB7, 0xC9, 0xE3, 0xAA, 0x2C, 0x65,
    0x96, 0xE9, 0xC0, 0x57, 0x02, 0xDB, 0x30, 0xA0, 0x7C, 0x9A, 0xA2, 0xDC, 0x23, 0x5C, 0x52, 0x69,
    0xE3, 0x9D, 0x0C, 0xA9, 0xDF, 0x7A, 0xAD, 0x44, 0x61, 0x2A, 0xD6, 0xF8, 0x8F, 0x69, 0x69, 0x92,
    0x98, 0xF3, 0xCA, 0xB1, 0xB5, 0x43, 0x67, 0xFB, 0x0E, 0x8B, 0x93, 0xF7, 0x35, 0xDC, 0x8C, 0xD8,
    0x00, 0x00, 0x00, 0x00, 0x00, 0x00, 0x00, 0x01]

def wpsDhRRModPValue : List (BitVec 8) :=
  [0xE3, 0xB3, 0x3C, 0x72, 0x59, 0x54, 0x1C, 0x01, 0xEE, 0x9C, 0x9A, 0x21, 0x6C, 0xC1, 0xEB, 0xD2,
    0xAE, 0x59, 0x41, 0x04, 0x79, 0x29, 0xA1, 0xC7, 0xE9, 0xC3, 0xFA, 0x02, 0xCC, 0x24, 0x56, 0xEF,
    0x10, 0x26, 0x30, 0xFA, 0x9A, 0x36, 0xA5, 0x1F, 0x57, 0xB5, 0x93, 0x48, 0x67, 0x98, 0x44, 0x60,
    0x0B, 0xE4, 0x96, 0x47, 0xA8, 0x7C, 0x7B, 0x37, 0xF8, 0x05, 0x65, 0x64, 0x96, 0x9B, 0x7F, 0x02,
    0xDC, 0x54, 0x1A, 0x4E, 0xD4, 0x05, 0x3F, 0x54, 0xD6, 0x2A, 0x0E, 0xEA, 0xB2, 0x70, 0x52, 0x1B,
    0x22, 0xC2, 0x96, 0xE9, 0xD4, 0x6F, 0xEC, 0x23, 0x8E, 0x1A, 0xBD, 0x78, 0x02, 0x23, 0xB7, 0x6B,
    0xB8, 0xFE, 0x61, 0x21, 0x19, 0x6B, 0x7E, 0x88, 0x1C, 0x72, 0x9C, 0x7E, 0x04, 0xB9, 0xF7, 0x96,
    0x07, 0xCD, 0x0A, 0x62, 0x8E, 0x43, 0x41, 0x30, 0x04, 0xA5, 0x41, 0xFF, 0x93, 0xAE, 0x1C, 0xEB,
    0xB0, 0x04, 0xA7, 0x50, 0xDB, 0x10, 0x2D, 0x39, 0xB9, 0x05, 0x2B, 0xB4, 0x7A, 0x58, 0xF1, 0x70,
    0x7E, 0x8C, 0xD2, 0xAC, 0x98, 0xB5, 0xFB, 0x62, 0x8F, 0x23, 0x31, 0xB1, 0x3B, 0x01, 0xE0, 0x18,
    0xF4, 0x66, 0xEE, 0x5F, 0xBC, 0xD4, 0x9D, 0x68, 0xD0, 0xAB, 0x92, 0xE1, 0x83, 0x97, 0xF2, 0x45,
    0x8E, 0x0E, 0x3E, 0x21, 0x67, 0x47, 0x8C, 0x73, 0xF1, 0x15, 0xD2, 0x7D, 0x32, 0xC6, 0x95, 0xE0]

/-- `pBI_X` and `pBI_Temp1`, with the integers that the functions share. -/
structure Exponentiation where
  x : BigInteger
  temp1 : BigInteger
  scratch : Scratch

section

variable (p : BigInteger) (bitsOfR : Nat)

def squareX (s : Exponentiation) : Option Exponentiation := do
  let (temp1, scratch) ← square s.x s.temp1 s.scratch
  let (x, scratch) ← montgomeryReduction temp1 p s.x bitsOfR scratch
  some ⟨x, temp1, scratch⟩

/-- `pBI_X` is multiplied with a power of the table. -/
def mulX (a : BigInteger) (s : Exponentiation) : Option Exponentiation := do
  let temp1 ← mul a s.x s.temp1
  let (x, scratch) ← montgomeryReduction temp1 p s.x bitsOfR s.scratch
  some ⟨x, temp1, scratch⟩

/-- Four bits of the exponent. -/
def window (table : Nat → BigInteger) (s : Exponentiation) (sliding : Nat) :
    Option Exponentiation := do
  let s ← squareX p bitsOfR s
  let s ← squareX p bitsOfR s
  let s ← squareX p bitsOfR s
  let s ← squareX p bitsOfR s
  if sliding ≠ 0 then mulX p bitsOfR (table sliding) s else some s

/-- The loop over the exponent with `n` bytes left. -/
def windowLoop (table : Nat → BigInteger) (e : BigInteger) : Nat → Exponentiation →
    Option Exponentiation
  | 0, s => some s
  | n + 1, s => do
    let slidingValue := e.getByteValue (n + 1)
    let s ← window p bitsOfR table s (slidingValue.toNat / 16)
    let s ← window p bitsOfR table s (slidingValue.toNat % 16)
    windowLoop table e n s

/-- The loop that fills the table, from `Index = 16 - n` on. -/
def tableLoop : Nat → (Nat → BigInteger) × Exponentiation →
    Option ((Nat → BigInteger) × Exponentiation)
  | 0, s => some s
  | n + 1, (table, s) => do
    let index := 16 - (n + 1)
    let temp1 ← mul (table (index - 1)) (table 1) s.temp1
    let (a, scratch) ← montgomeryReduction temp1 p (table index) bitsOfR s.scratch
    tableLoop n (update table index a, { s with temp1, scratch })

end

/-- The bytes in memory of an array, on the little-endian hardware. -/
def arrayBytes (words : List (BitVec 32)) : List (BitVec 8) :=
  words.flatMap fun x => (List.range 4).map fun k => uint32GetByte x (BitVec.ofNat 32 k)

/-- `BigInteger_Montgomery_ExpMod` with a result that is just initialized.  `Bits_Of_R` is what the
    call before has left; `pBI_U`, `pBI_S` and `pBI_O` are freed at the end of each call. -/
def montgomeryExpMod (g e p : BigInteger) (bitsOfR : Nat) : Option BigInteger :=
  let allocLength := g.integerLength + e.integerLength + p.integerLength + 300
  let temp1 := init.allocSize allocLength
  let temp2 := init.allocSize allocLength
  let bitsOfP := p.bitsOfBI
  if g.isByte 0 then some (bin2BI [0] init)
  else if g.isByte 1 ∨ e.isByte 1 then (div g p temp1 init).map Prod.snd
  else if e.isByte 2 then do
    let temp1 ← mul g g temp1
    (div temp1 p temp2 init).map Prod.snd
  else do
    let x := init.allocSize allocLength
    let scratch : Scratch := ⟨x, x, x⟩
    let table : Nat → BigInteger := fun _ => init.allocSize 193
    let temp1 := bin2BI wpsDhPValue temp1
    let (x, rr, temp1, table, bitsOfR) ←
      if (arrayBytes p.integerArray).take p.integerLength =
          (arrayBytes temp1.integerArray).take p.integerLength then
        some (bin2BI wpsDhXValue x, bin2BI wpsDhRRModPValue init, temp1, table, 1537)
      else do
        let length := if bitsOfP.toNat % 8 = 0 then p.integerLength + 1 else p.integerLength
        let r := bin2BI (BitVec.ofNat 8 (2 ^ (bitsOfP.toNat % 8)) :: List.replicate (length - 1) 0)
          init
        let temp1 ← mul r r temp1
        let (a, rr) ← div temp1 p (table 1) init
        let (_, x) ← div r p temp2 x
        some (x, rr, temp1, update table 1 a, bitsOfR)
    let temp1 ← mul g rr temp1
    let (a, scratch) ← montgomeryReduction temp1 p (table 1) bitsOfR scratch
    let (table, s) ← tableLoop p bitsOfR 14 (update table 1 a, ⟨x, temp1, scratch⟩)
    let s ← windowLoop p bitsOfR table e e.integerLength s
    (montgomeryReduction s.x p init bitsOfR s.scratch).map Prod.fst

end RalinkSdk.Crypt
