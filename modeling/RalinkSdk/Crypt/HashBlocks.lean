import Mathlib.Data.BitVec
import Mathlib.Data.List.Basic

/-!
# The block functions of SHA-1, SHA-256 and MD5

`RT_SHA1_Hash`, `RT_SHA256_Hash` and `RT_MD5_Hash` as functions of the hash value and the 64 bytes
of `Block`.  The words of a block are loaded as `cpu2be32` and `cpu2le32` leave them.

## Source

`common/crypt_sha2.c`, `common/crypt_md5.c`.
-/

namespace RalinkSdk.Crypt

/-! ## Words -/

def rotr32 (x : BitVec 32) (n : Nat) : BitVec 32 := x >>> n ||| x <<< (32 - n)

def rotl32 (x : BitVec 32) (n : Nat) : BitVec 32 := x <<< n ||| x >>> (32 - n)

def shaCh (x y z : BitVec 32) : BitVec 32 := (x &&& y) ^^^ (~~~x &&& z)

def shaMaj (x y z : BitVec 32) : BitVec 32 := (x &&& y) ^^^ (x &&& z) ^^^ (y &&& z)

def shaParity (x y z : BitVec 32) : BitVec 32 := x ^^^ y ^^^ z

/-- The word of four bytes, the high byte first. -/
def be32Word (bytes : List (BitVec 8)) : BitVec 32 :=
  bytes.getD 0 0 ++ bytes.getD 1 0 ++ bytes.getD 2 0 ++ bytes.getD 3 0

/-- The word of four bytes, the low byte first. -/
def le32Word (bytes : List (BitVec 8)) : BitVec 32 :=
  bytes.getD 3 0 ++ bytes.getD 2 0 ++ bytes.getD 1 0 ++ bytes.getD 0 0

/-- The bytes of a word, the high byte first. -/
def be32Bytes (x : BitVec 32) : List (BitVec 8) :=
  [x.extractLsb' 24 8, x.extractLsb' 16 8, x.extractLsb' 8 8, x.extractLsb' 0 8]

/-- The bytes of a word, the low byte first. -/
def le32Bytes (x : BitVec 32) : List (BitVec 8) :=
  [x.extractLsb' 0 8, x.extractLsb' 8 8, x.extractLsb' 16 8, x.extractLsb' 24 8]

theorem le32Word_le32Bytes (x : BitVec 32) : le32Word (le32Bytes x) = x := by
  apply BitVec.eq_of_getLsbD_eq
  intro i hi
  simp only [le32Word, le32Bytes, List.getD_cons_zero, List.getD_cons_succ, BitVec.getLsbD_append,
    BitVec.getLsbD_extractLsb']
  grind

def blockWords (word : List (BitVec 8) → BitVec 32) (block : List (BitVec 8)) : List (BitVec 32) :=
  (List.range 16).map fun i => word (block.drop (4 * i))

/-! ## SHA-1 -/

/-- `HashValue` of `SHA1_CTX_STRUC`, and the working variables. -/
structure Sha1Value where
  a : BitVec 32
  b : BitVec 32
  c : BitVec 32
  d : BitVec 32
  e : BitVec 32
deriving DecidableEq

def sha1DefaultHashValue : Sha1Value where
  a := 0x67452301
  b := 0xefcdab89
  c := 0x98badcfe
  d := 0x10325476
  e := 0xc3d2e1f0

/-- The message schedule: `count` words are appended. -/
def sha1Schedule (w : List (BitVec 32)) : Nat → List (BitVec 32)
  | 0 => w
  | count + 1 =>
    let i := w.length
    sha1Schedule (w ++ [rotl32 (w.getD (i - 3) 0 ^^^ w.getD (i - 8) 0 ^^^ w.getD (i - 14) 0 ^^^
      w.getD (i - 16) 0) 1]) count

/-- One of the four loops of rounds: the function and the constant of `SHA1_K`. -/
def sha1Rounds (f : BitVec 32 → BitVec 32 → BitVec 32 → BitVec 32) (k : BitVec 32)
    (w : List (BitVec 32)) (v : Sha1Value) : Sha1Value :=
  w.foldl (fun v w_t =>
    { a := rotl32 v.a 5 + f v.b v.c v.d + v.e + k + w_t
      b := v.a
      c := rotl32 v.b 30
      d := v.c
      e := v.d }) v

/-- `RT_SHA1_Hash`: `HashValue` afterwards. -/
def sha1Compress (h : Sha1Value) (block : List (BitVec 8)) : Sha1Value :=
  let w := sha1Schedule (blockWords be32Word block) 64
  let v := sha1Rounds shaCh 0x5a827999 (w.take 20) h
  let v := sha1Rounds shaParity 0x6ed9eba1 ((w.drop 20).take 20) v
  let v := sha1Rounds shaMaj 0x8f1bbcdc ((w.drop 40).take 20) v
  let v := sha1Rounds shaParity 0xca62c1d6 ((w.drop 60).take 20) v
  { a := h.a + v.a, b := h.b + v.b, c := h.c + v.c, d := h.d + v.d, e := h.e + v.e }

def Sha1Value.words (h : Sha1Value) : List (BitVec 32) := [h.a, h.b, h.c, h.d, h.e]

/-! ## SHA-256 -/

def sha256K : List (BitVec 32) :=
  [0x428a2f98, 0x71374491, 0xb5c0fbcf, 0xe9b5dba5, 0x3956c25b, 0x59f111f1,
   0x923f82a4, 0xab1c5ed5, 0xd807aa98, 0x12835b01, 0x243185be, 0x550c7dc3,
   0x72be5d74, 0x80deb1fe, 0x9bdc06a7, 0xc19bf174, 0xe49b69c1, 0xefbe4786,
   0x0fc19dc6, 0x240ca1cc, 0x2de92c6f, 0x4a7484aa, 0x5cb0a9dc, 0x76f988da,
   0x983e5152, 0xa831c66d, 0xb00327c8, 0xbf597fc7, 0xc6e00bf3, 0xd5a79147,
   0x06ca6351, 0x14292967, 0x27b70a85, 0x2e1b2138, 0x4d2c6dfc, 0x53380d13,
   0x650a7354, 0x766a0abb, 0x81c2c92e, 0x92722c85, 0xa2bfe8a1, 0xa81a664b,
   0xc24b8b70, 0xc76c51a3, 0xd192e819, 0xd6990624, 0xf40e3585, 0x106aa070,
   0x19a4c116, 0x1e376c08, 0x2748774c, 0x34b0bcb5, 0x391c0cb3, 0x4ed8aa4a,
   0x5b9cca4f, 0x682e6ff3, 0x748f82ee, 0x78a5636f, 0x84c87814, 0x8cc70208,
   0x90befffa, 0xa4506ceb, 0xbef9a3f7, 0xc67178f2]

def zsigma256_0 (x : BitVec 32) : BitVec 32 := rotr32 x 2 ^^^ rotr32 x 13 ^^^ rotr32 x 22

def zsigma256_1 (x : BitVec 32) : BitVec 32 := rotr32 x 6 ^^^ rotr32 x 11 ^^^ rotr32 x 25

def sigma256_0 (x : BitVec 32) : BitVec 32 := rotr32 x 7 ^^^ rotr32 x 18 ^^^ x >>> 3

def sigma256_1 (x : BitVec 32) : BitVec 32 := rotr32 x 17 ^^^ rotr32 x 19 ^^^ x >>> 10

/-- `HashValue` of `SHA256_CTX_STRUC`, and the working variables. -/
structure Sha256Value where
  a : BitVec 32
  b : BitVec 32
  c : BitVec 32
  d : BitVec 32
  e : BitVec 32
  f : BitVec 32
  g : BitVec 32
  h : BitVec 32
deriving DecidableEq

def sha256DefaultHashValue : Sha256Value where
  a := 0x6a09e667
  b := 0xbb67ae85
  c := 0x3c6ef372
  d := 0xa54ff53a
  e := 0x510e527f
  f := 0x9b05688c
  g := 0x1f83d9ab
  h := 0x5be0cd19

/-- Round `t`: a word is appended to the schedule from round 16 on. -/
def sha256Round (p : List (BitVec 32) × Sha256Value) (t : Nat) : List (BitVec 32) × Sha256Value :=
  let (w, v) := p
  let w := if 15 < t then
      w ++ [sigma256_1 (w.getD (t - 2) 0) + w.getD (t - 7) 0 + sigma256_0 (w.getD (t - 15) 0) +
        w.getD (t - 16) 0]
    else w
  let t1 := v.h + zsigma256_1 v.e + shaCh v.e v.f v.g + sha256K.getD t 0 + w.getD t 0
  let t2 := zsigma256_0 v.a + shaMaj v.a v.b v.c
  (w, { a := t1 + t2, b := v.a, c := v.b, d := v.c, e := v.d + t1, f := v.e, g := v.f, h := v.g })

/-- `RT_SHA256_Hash`: `HashValue` afterwards. -/
def sha256Compress (h : Sha256Value) (block : List (BitVec 8)) : Sha256Value :=
  let v := ((List.range 64).foldl sha256Round (blockWords be32Word block, h)).2
  { a := h.a + v.a, b := h.b + v.b, c := h.c + v.c, d := h.d + v.d
    e := h.e + v.e, f := h.f + v.f, g := h.g + v.g, h := h.h + v.h }

def Sha256Value.words (h : Sha256Value) : List (BitVec 32) :=
  [h.a, h.b, h.c, h.d, h.e, h.f, h.g, h.h]

/-! ## MD5 -/

/-- `HashValue` of `MD5_CTX_STRUC`, and the working variables. -/
structure Md5Value where
  a : BitVec 32
  b : BitVec 32
  c : BitVec 32
  d : BitVec 32
deriving DecidableEq

def md5DefaultHashValue : Md5Value where
  a := 0x67452301
  b := 0xefcdab89
  c := 0x98badcfe
  d := 0x10325476

def md5F (x y z : BitVec 32) : BitVec 32 := (x &&& y) ||| (~~~x &&& z)

def md5G (x y z : BitVec 32) : BitVec 32 := (x &&& z) ||| (y &&& ~~~z)

def md5H (x y z : BitVec 32) : BitVec 32 := x ^^^ y ^^^ z

def md5I (x y z : BitVec 32) : BitVec 32 := y ^^^ (x ||| ~~~z)

/-- `ROUND1` to `ROUND4` with their function.  The arguments are in the order of the call, and the
    result in that of the next one, whose first argument is the last one of this call. -/
def md5Round (f : BitVec 32 → BitVec 32 → BitVec 32 → BitVec 32) (x : List (BitVec 32))
    (v : Md5Value) (call : Nat × Nat × BitVec 32) : Md5Value :=
  let (i, s, ac) := call
  let a := v.a + (f v.b v.c v.d + x.getD i 0 + ac)
  { a := v.d, b := rotl32 a s + v.b, c := v.b, d := v.c }

/-- The calls of `ROUND1`: the index of `X`, the shift and the constant. -/
def md5Calls1 : List (Nat × Nat × BitVec 32) :=
  [(0, 7, 0xd76aa478), (1, 12, 0xe8c7b756), (2, 17, 0x242070db), (3, 22, 0xc1bdceee),
   (4, 7, 0xf57c0faf), (5, 12, 0x4787c62a), (6, 17, 0xa8304613), (7, 22, 0xfd469501),
   (8, 7, 0x698098d8), (9, 12, 0x8b44f7af), (10, 17, 0xffff5bb1), (11, 22, 0x895cd7be),
   (12, 7, 0x6b901122), (13, 12, 0xfd987193), (14, 17, 0xa679438e), (15, 22, 0x49b40821)]

def md5Calls2 : List (Nat × Nat × BitVec 32) :=
  [(1, 5, 0xf61e2562), (6, 9, 0xc040b340), (11, 14, 0x265e5a51), (0, 20, 0xe9b6c7aa),
   (5, 5, 0xd62f105d), (10, 9, 0x2441453), (15, 14, 0xd8a1e681), (4, 20, 0xe7d3fbc8),
   (9, 5, 0x21e1cde6), (14, 9, 0xc33707d6), (3, 14, 0xf4d50d87), (8, 20, 0x455a14ed),
   (13, 5, 0xa9e3e905), (2, 9, 0xfcefa3f8), (7, 14, 0x676f02d9), (12, 20, 0x8d2a4c8a)]

def md5Calls3 : List (Nat × Nat × BitVec 32) :=
  [(5, 4, 0xfffa3942), (8, 11, 0x8771f681), (11, 16, 0x6d9d6122), (14, 23, 0xfde5380c),
   (1, 4, 0xa4beea44), (4, 11, 0x4bdecfa9), (7, 16, 0xf6bb4b60), (10, 23, 0xbebfbc70),
   (13, 4, 0x289b7ec6), (0, 11, 0xeaa127fa), (3, 16, 0xd4ef3085), (6, 23, 0x4881d05),
   (9, 4, 0xd9d4d039), (12, 11, 0xe6db99e5), (15, 16, 0x1fa27cf8), (2, 23, 0xc4ac5665)]

def md5Calls4 : List (Nat × Nat × BitVec 32) :=
  [(0, 6, 0xf4292244), (7, 10, 0x432aff97), (14, 15, 0xab9423a7), (5, 21, 0xfc93a039),
   (12, 6, 0x655b59c3), (3, 10, 0x8f0ccc92), (10, 15, 0xffeff47d), (1, 21, 0x85845dd1),
   (8, 6, 0x6fa87e4f), (15, 10, 0xfe2ce6e0), (6, 15, 0xa3014314), (13, 21, 0x4e0811a1),
   (4, 6, 0xf7537e82), (11, 10, 0xbd3af235), (2, 15, 0x2ad7d2bb), (9, 21, 0xeb86d391)]

/-- `RT_MD5_Hash`: `HashValue` afterwards.  After 64 calls the variables are in their order again. -/
def md5Compress (h : Md5Value) (block : List (BitVec 8)) : Md5Value :=
  let x := blockWords le32Word block
  let v := md5Calls1.foldl (md5Round md5F x) h
  let v := md5Calls2.foldl (md5Round md5G x) v
  let v := md5Calls3.foldl (md5Round md5H x) v
  let v := md5Calls4.foldl (md5Round md5I x) v
  { a := h.a + v.a, b := h.b + v.b, c := h.c + v.c, d := h.d + v.d }

def Md5Value.words (h : Md5Value) : List (BitVec 32) := [h.a, h.b, h.c, h.d]

end RalinkSdk.Crypt
