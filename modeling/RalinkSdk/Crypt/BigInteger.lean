import RalinkSdk.Lib.Words

/-!
# Big integers

`BIG_INTEGER` and its operations up to the division.  A pointer to no structure is as good as a
structure just initialized, as every function that writes to one initializes it first; allocations
succeed.  `none` stands for an access outside the array, and for a division by 0.

## Source

`common/crypt_biginteger.c`, `include/crypt_biginteger.h`.
-/

namespace RalinkSdk.Crypt

open Lib
open BitVec (ofNat)

/-- `BIG_INTEGER` without its name.  `integerArray` is all the memory of `AllocSize` bytes, and empty
    for `NULL`. -/
structure BigInteger where
  integerArray : List (BitVec 32)
  arrayLength : Nat
  integerLength : Nat
  signed : Int
deriving DecidableEq

namespace BigInteger

def init : BigInteger := ⟨[], 0, 0, 1⟩

/-- The number of words for a number of bytes. -/
def wordsFor (length : Nat) : Nat := length / 4 + if length % 4 ≠ 0 then 1 else 0

/-- `BigInteger_AllocSize`.  Memory that is large enough is kept, and with it the sign. -/
def allocSize (bi : BigInteger) (length : Nat) : BigInteger :=
  if length = 0 then bi
  else
    let bi := if bi.integerArray ≠ [] ∧ bi.integerArray.length < wordsFor length then init else bi
    let size := max bi.integerArray.length (wordsFor length)
    ⟨List.replicate size 0, wordsFor length, length, bi.signed⟩

def uint32GetByte (value index : BitVec 32) : BitVec 8 :=
  (value >>> ((index * 8).toNat % 32)).setWidth 8

/-- The last word below `n` that is not 0. -/
def highWord (words : List (BitVec 32)) : Nat → Option Nat
  | 0 => none
  | n + 1 => if words.getD n 0 = 0 then highWord words n else some n

/-- The last byte of a word below byte `n` that is not 0. -/
def highByte (x : BitVec 32) : Nat → Nat
  | 0 => 0
  | n + 1 => if uint32GetByte x (ofNat 32 n) = 0 then highByte x n else n

def clearHighBits (bi : BigInteger) : BigInteger :=
  if bi.integerArray = [] then bi
  else
    match highWord bi.integerArray bi.arrayLength with
    | none => { bi with integerLength := 1, arrayLength := 1, signed := 1 }
    | some i =>
      { bi with
        integerLength := i * 4 + highByte (bi.integerArray.getD i 0) 4 + 1
        arrayLength := i + 1 }

/-- `BigInteger_BI2Bin`; `none` where it sets `*Length` to 0. -/
def bi2Bin (bi : BigInteger) (length : Nat) : Option (List (BitVec 8)) :=
  if length < bi.integerLength ∨ bi.integerArray = [] then none
  else
    let bi := bi.clearHighBits
    some ((List.range bi.integerLength).reverse.map fun k =>
      uint32GetByte (bi.integerArray.getD (k / 4) 0) (ofNat 32 (k % 4)))

/-- The words of a text of bytes, the high byte first, from the last four bytes on. -/
def textWords (value : List (BitVec 8)) : Nat → List (BitVec 32)
  | 0 => []
  | n + 1 =>
    ((value.drop (value.length - 4)).foldl (fun number b => number <<< 8 ||| b.setWidth 32) 0) ::
      textWords (value.take (value.length - 4)) n

def bin2BI (value : List (BitVec 8)) (bi : BigInteger) : BigInteger :=
  let bi := bi.allocSize value.length
  if bi.integerArray = [] then bi
  else
    { bi with
      integerArray := textWords value bi.arrayLength ++ bi.integerArray.drop bi.arrayLength }

/-- `BigInteger_BitsOfBI`: with the number of bytes of the array, as `sizeof(UINT32)` has it. -/
def bitsOfBI (bi : BigInteger) : BitVec 32 :=
  let number := bi.integerArray.getD (bi.arrayLength - 1) 0
  let index := (List.range 32).takeWhile fun i => number.getMsbD i = false
  ofNat 32 (bi.arrayLength * 4) - ofNat 32 index.length

/-- `BigInteger_GetByteValue` for an index counted from 1.  The shift is one byte too short. -/
def getByteValue (bi : BigInteger) (index : Nat) : BitVec 8 :=
  let array := (index - 1) / 4
  let shift := ofNat 32 ((index - 1) % 4)
  if bi.arrayLength < array ∨ bi.integerLength < index then 0
  else uint32GetByte (bi.integerArray.getD array 0) (shift - 1)

def copy (copied result : BigInteger) : Option BigInteger :=
  let result := result.allocSize copied.integerLength
  if copied.integerArray.length < result.arrayLength then none
  else
    some
      { integerArray := copied.integerArray.take result.arrayLength ++
          result.integerArray.drop result.arrayLength
        arrayLength := copied.arrayLength
        integerLength := copied.integerLength
        signed := copied.signed }

/-- The words of two arrays below index `n` from the high end. -/
def compareWords (first second : List (BitVec 32)) : Nat → Ordering
  | 0 => .eq
  | n + 1 =>
    if second.getD n 0 < first.getD n 0 then .gt
    else if first.getD n 0 < second.getD n 0 then .lt
    else compareWords first second n

/-- `BigInteger_UnsignedCompare`.  The number of bytes decides first. -/
def unsignedCompare (first second : BigInteger) : Ordering :=
  if second.integerLength < first.integerLength then .gt
  else if first.integerLength < second.integerLength then .lt
  else compareWords first.integerArray second.integerArray first.arrayLength

/-- The words below `arrayLength`, and nothing behind them. -/
def operand (bi : BigInteger) (i : Nat) : Option (BitVec 32) :=
  if i < bi.arrayLength then bi.integerArray[i]? else none

/-! ## Addition and subtraction -/

def addStep (words : Option (BitVec 32) × Option (BitVec 32)) (_ : BitVec 32) (carry : Nat) :
    BitVec 32 × Nat :=
  let sum := (words.1.elim 0 BitVec.toNat + words.2.elim 0 BitVec.toNat + carry) % 2 ^ 64
  (ofNat 32 sum, sum / 2 ^ 32)

/-- The branch of `BigInteger_Add` for operands of one sign. -/
def addSame (first second result : BigInteger) : Option BigInteger := do
  let result := result.allocSize (max first.integerLength second.integerLength + 1)
  let words := (List.range result.arrayLength).map fun i => (first.operand i, second.operand i)
  let array ← chain addStep (fun rest _ => some rest) words result.integerArray 0
  some { result with integerArray := array, signed := first.signed }.clearHighBits

/-- A step of the loop of `BigInteger_Sub`.  The test takes the carry from the second word. -/
def subStep (word : Option (BitVec 32)) (r carry : BitVec 32) : BitVec 32 × BitVec 32 :=
  match word with
  | some t =>
    if t - carry ≤ r then (r - t - carry, 0) else (0xFFFFFFFF - t - carry + r + 1, 1)
  | none => if carry ≤ r then (r - carry, 0) else (0xFFFFFFFF - carry, 1)

/-- The branch of `BigInteger_Sub` for operands of one sign that are not equal. -/
def subSame (first second result : BigInteger) : Option BigInteger := do
  let compareResult := unsignedCompare first second
  let large ← if compareResult = .gt then copy first init else copy second init
  let small ← if compareResult = .gt then copy second init else copy first init
  let result ← copy large result
  let words := (List.range result.arrayLength).map small.operand
  let array ← chain subStep (fun rest _ => some rest) words result.integerArray 0
  let negative := (first.signed = 1 ∧ second.signed = 1 ∧ compareResult = .lt) ∨
    (first.signed = -1 ∧ second.signed = -1 ∧ compareResult = .gt)
  some { result with
    integerArray := array
    signed := if negative then -1 else result.signed }.clearHighBits

def add (first second result : BigInteger) : Option BigInteger :=
  if first.integerArray = [] ∨ second.integerArray = [] then some result
  else if unsignedCompare first second = .eq ∧ first.signed * second.signed < 0 then
    some (result.allocSize 1)
  else if 0 < first.signed * second.signed then addSame first second result
  else if first.signed = 1 ∧ second.signed = -1 then
    subSame first { second with signed := 1 } result
  else if first.signed = -1 ∧ second.signed = 1 then
    subSame second { first with signed := 1 } result
  else some result

def sub (first second result : BigInteger) : Option BigInteger :=
  if first.integerArray = [] ∨ second.integerArray = [] then some result
  else if unsignedCompare first second = .eq ∧ 0 < first.signed * second.signed then
    some (result.allocSize 1)
  else if 0 < first.signed * second.signed then subSame first second result
  else if first.signed = 1 ∧ second.signed = -1 then
    addSame first { second with signed := 1 } result
  else if first.signed = -1 ∧ second.signed = 1 then
    (addSame { first with signed := 1 } second result).map ({ · with signed := -1 })
  else some result

/-! ## Multiplication -/

/-- `while (Carry != 0)` on the words that follow. -/
def carryOn : List (BitVec 32) → Nat → Option (List (BitVec 32))
  | rs, 0 => some rs
  | [], _ + 1 => none
  | r :: rs, carry + 1 =>
    let sum := (r.toNat + (carry + 1)) % 2 ^ 64
    (carryOn rs (sum / 2 ^ 32)).map (ofNat 32 sum :: ·)

/-- A step of the inner loop of `BigInteger_Mul`. -/
def mulStep (firstValue : Nat) (word r : BitVec 32) (carry : Nat) : BitVec 32 × Nat :=
  let secondValue := word.toNat * firstValue % 2 ^ 64
  let sum := (r.toNat + secondValue + carry) % 2 ^ 64
  (ofNat 32 sum, sum / 2 ^ 32)

/-- The inner loop of `BigInteger_Mul`, on the memory from the word of the first operand on. -/
def mulRow (second : List (BitVec 32)) (a : BitVec 32) (memory : List (BitVec 32)) :
    Option (List (BitVec 32)) :=
  if a = 0 then some memory else chain (mulStep a.toNat) carryOn second memory 0

def mulLoop (second : List (BitVec 32)) : List (BitVec 32) → List (BitVec 32) →
    Option (List (BitVec 32))
  | [], memory => some memory
  | a :: first, memory => do
    let memory ← mulRow second a memory
    let rest ← mulLoop second first (memory.drop 1)
    some (memory.take 1 ++ rest)

def words (bi : BigInteger) : List (BitVec 32) := bi.integerArray.take bi.arrayLength

/-- An operand that is one byte with the value `x`. -/
def isByte (bi : BigInteger) (x : BitVec 32) : Prop :=
  bi.integerLength = 1 ∧ bi.integerArray.getD 0 0 = x

instance (bi : BigInteger) (x : BitVec 32) : Decidable (bi.isByte x) :=
  inferInstanceAs (Decidable (_ ∧ _))

def mul (first second result : BigInteger) : Option BigInteger :=
  if first.integerArray = [] ∨ second.integerArray = [] then some result
  else do
    let result ←
      if first.isByte 0 ∨ second.isByte 0 then some (result.allocSize 1)
      else if first.isByte 1 then copy second result
      else if second.isByte 1 then copy first result
      else do
        let result := result.allocSize (first.integerLength + second.integerLength)
        let array ← mulLoop second.words first.words result.integerArray
        some { result with integerArray := array }
    some { result with signed := first.signed * second.signed }.clearHighBits

/-! ## Squares -/

/-- `pBI_U`, `pBI_S` and `pBI_O` -/
structure Scratch where
  u : BigInteger
  s : BigInteger
  o : BigInteger

def squareWord (x : BitVec 32) : List (BitVec 32) :=
  let hbits := x >>> 16 &&& 0xFFFF
  let lbits := x &&& 0xFFFF
  let temp1 := hbits * lbits
  let temp2 := (temp1 &&& 0x7FFF) <<< 17
  let low := lbits * lbits + temp2
  let high := hbits * hbits + (temp1 >>> 15 &&& 0x1FFFF)
  [low, if low < temp2 then high + 1 else high]

/-- A step of the first row of products, which writes to the result. -/
def firstStep (tempValue : Nat) (word _ : BitVec 32) (carry : Nat) : BitVec 32 × Nat :=
  let result := (word.toNat * tempValue % 2 ^ 64 + carry) % 2 ^ 64
  (ofNat 32 result, result / 2 ^ 32)

def firstCarry : List (BitVec 32) → Nat → Option (List (BitVec 32))
  | rs, 0 => some rs
  | [], _ + 1 => none
  | _ :: rs, carry + 1 => some (ofNat 32 (carry + 1) :: rs)

/-- A step of the rows that follow, and of the Montgomery reduction. -/
def rowStep (tempValue : Nat) (word r : BitVec 32) (carry : Nat) : BitVec 32 × Nat :=
  let result1 := (r.toNat + carry) % 2 ^ 64
  let result2 := word.toNat * tempValue % 2 ^ 64
  let sum := (result1 % 2 ^ 32 + result2) % 2 ^ 64
  (ofNat 32 sum, (result1 / 2 ^ 32 + sum / 2 ^ 32) % 2 ^ 64)

/-- The last carry of such a row of products, which goes into one word. -/
def rowCarry : List (BitVec 32) → Nat → Option (List (BitVec 32))
  | rs, 0 => some rs
  | [], _ + 1 => none
  | r :: rs, carry + 1 => some ((r + ofNat 32 (carry + 1)) :: rs)

/-- The rows of products from the second on; each begins two words further on. -/
def rows : List (BitVec 32) → List (BitVec 32) → Option (List (BitVec 32))
  | a :: b :: bs, memory => do
    let memory ← chain (rowStep a.toNat) rowCarry (b :: bs) memory 0
    let rest ← rows (b :: bs) (memory.drop 2)
    some (memory.take 2 ++ rest)
  | _, memory => some memory

/-- Every product of two different words, once. -/
def crossProducts : List (BitVec 32) → List (BitVec 32) → Option (List (BitVec 32))
  | a :: bs, memory => do
    let row ← chain (firstStep a.toNat) firstCarry bs (memory.drop 1) 0
    let rest ← rows bs (row.drop 2)
    some (memory.take 1 ++ (row.take 2 ++ rest))
  | [], memory => some memory

/-- A step of the loop that doubles; `word` is the word as it was. -/
def doubleStep (word r carry : BitVec 32) : BitVec 32 × BitVec 32 :=
  let new := r <<< 1 ||| carry
  (new, if new < word then 1 else 0)

/-- The end of the loop that doubles: the last carry goes into the next word. -/
def doubleCarry : List (BitVec 32) → BitVec 32 → Option (List (BitVec 32))
  | [], _ => none
  | _ :: rs, carry => some (carry :: rs)

/-- The first step of `BigInteger_Square`: the squares of the words go to `pBI_S`. -/
def squareDiagonal (bi s : BigInteger) : Option BigInteger :=
  let squares := bi.words.flatMap squareWord
  if s.integerArray.length < squares.length then none
  else some { s with integerArray := squares ++ s.integerArray.drop squares.length }

/-- The second and the third step: the products of different words go to the result. -/
def squareCross (bi result : BigInteger) : Option BigInteger := do
  let array ← crossProducts bi.words result.integerArray
  some { result with integerArray := array }.clearHighBits

/-- The result is doubled in `pBI_O`. -/
def squareDouble (result o : BigInteger) : Option BigInteger := do
  let o ← copy result o
  let array ← chain doubleStep doubleCarry (result.integerArray.take o.arrayLength) o.integerArray 0
  some { o with
    integerArray := array
    integerLength := o.integerLength + 1
    arrayLength := o.arrayLength + 1 }.clearHighBits

def square (bi result : BigInteger) (scratch : Scratch) : Option (BigInteger × Scratch) :=
  if bi.integerArray = [] then some (result, scratch)
  else if bi.isByte 0 then
    some ({ result.allocSize 1 with signed := 1 }.clearHighBits, scratch)
  else do
    let length := bi.integerLength * 2 + 20
    let s ← squareDiagonal bi (scratch.s.allocSize length)
    let result ← squareCross bi (result.allocSize length)
    let o ← squareDouble result (scratch.o.allocSize length)
    let result ← add o s result
    some ({ result with signed := 1 }.clearHighBits, { scratch with s := s, o := o })

end BigInteger

end RalinkSdk.Crypt
