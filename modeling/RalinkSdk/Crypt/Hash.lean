import RalinkSdk.Crypt.HashBlocks
import RalinkSdk.Lib.MerkleDamgard
import RalinkSdk.Lib.Region

/-!
# Hashing in pieces

The contexts of SHA-1, SHA-256 and MD5, which differ in their block function, their default hash
value and the order of bytes only, and HMAC over them.  `none` is an access outside `Block`.

## Source

`common/crypt_sha2.c`, `common/crypt_md5.c`, `common/crypt_hmac.c`.
-/

namespace RalinkSdk.Crypt

open Lib List Option Nat
open BitVec (ofNat lt_def ofNat_add toNat_ofNat)

def hashBlockSize : Nat := 64

/-- What the three functions differ in. -/
structure HashFunction where
  /-- `HashValue` -/
  Value : Type
  defaultHashValue : Value
  /-- The block function. -/
  compress : Value → List (BitVec 8) → Value
  words : Value → List (BitVec 32)
  /-- The number of words of `HashValue`. -/
  wordCount : Nat
  length_words : ∀ v, (words v).length = wordCount
  /-- The bytes of a word of `HashValue` in the digest. -/
  wordBytes : BitVec 32 → List (BitVec 8)
  length_wordBytes : ∀ w, (wordBytes w).length = 4
  /-- The digest fits a block. -/
  fits : 4 * wordCount ≤ hashBlockSize
  /-- The bytes of the length of the message. -/
  lengthBytes : BitVec 64 → List (BitVec 8)
  length_lengthBytes : ∀ n, (lengthBytes n).length = 8

/-- `SHA1_CTX_STRUC`, `SHA256_CTX_STRUC`, `MD5_CTX_STRUC` -/
structure HashCtx (f : HashFunction) where
  hashValue : f.Value
  messageLen : BitVec 64
  block : List (BitVec 8)
  blockLen : BitVec 32

section

variable (f : HashFunction)

def HashFunction.digestBytes (v : f.Value) : List (BitVec 8) := (f.words v).flatMap f.wordBytes

def HashFunction.digestSize : Nat := 4 * f.wordCount

/-! ## The functions of a context -/

/-- `RT_SHA1_Init`, `RT_SHA256_Init`, `RT_MD5_Init` -/
def hashInit : HashCtx f where
  hashValue := f.defaultHashValue
  messageLen := 0
  block := replicate hashBlockSize 0
  blockLen := 0

variable {f}

/-- `RT_SHA1_Hash`, `RT_SHA256_Hash`, `RT_MD5_Hash` -/
def hashBlock (ctx : HashCtx f) : HashCtx f :=
  { ctx with
    hashValue := f.compress ctx.hashValue ctx.block
    block := replicate hashBlockSize 0
    blockLen := 0 }

theorem hashAppendLoop_decreasing {rest : List (BitVec 8)} {blockLen : BitVec 32}
    (hrest : ¬rest = []) : 2 * (rest.drop (ofNat 32 hashBlockSize - blockLen).toNat).length +
        (if (0 : BitVec 32) = 0 then 0 else 1) <
      2 * rest.length + (if blockLen = 0 then 0 else 1) := by
  have hpos := length_pos_iff.mpr hrest
  rw [length_drop, if_pos rfl]
  by_cases hfull : blockLen = ofNat 32 hashBlockSize
  · subst hfull
    rw [BitVec.sub_self, if_neg (by decide)]
    exact lt_succ_of_le (Nat.mul_le_mul_left 2 (sub_le _ _))
  · have hroom : 0 < (ofNat 32 hashBlockSize - blockLen).toNat := by
      rw [Nat.pos_iff_ne_zero]
      intro hzero
      have hsub := BitVec.eq_of_toNat_eq (hzero.trans BitVec.toNat_zero.symm)
      exact hfull ((BitVec.sub_eq_iff_eq_add.mp hsub).trans (BitVec.zero_add blockLen)).symm
    omega

/-- The loop of `RT_SHA1_Append`, `RT_SHA256_Append` and `RT_MD5_Append` over what is left of the
    message.  `BlockLen` and `diffLen` are added in a `UINT`. -/
def hashAppendLoop (rest : List (BitVec 8)) (ctx : HashCtx f) : Option (HashCtx f) :=
  let diffLen := ofNat 32 rest.length
  if _ : rest = [] then some ctx
  else if ctx.blockLen + diffLen < ofNat 32 hashBlockSize then do
    let block ← put ctx.block ctx.blockLen.toNat rest
    some { ctx with block := block, blockLen := ctx.blockLen + diffLen }
  else do
    let room := (ofNat 32 hashBlockSize - ctx.blockLen).toNat
    let block ← put ctx.block ctx.blockLen.toNat (rest.take room)
    hashAppendLoop (rest.drop room)
      (hashBlock { ctx with block := block, blockLen := ofNat 32 hashBlockSize })
termination_by 2 * rest.length + (if ctx.blockLen = 0 then 0 else 1)
decreasing_by exact hashAppendLoop_decreasing (by assumption)

/-- `RT_SHA1_Append`, `RT_SHA256_Append`, `RT_MD5_Append` -/
def hashAppend (ctx : HashCtx f) (message : List (BitVec 8)) : Option (HashCtx f) := do
  let ctx ← hashAppendLoop message ctx
  some { ctx with messageLen := ctx.messageLen + ofNat 64 message.length }

/-- `RT_SHA1_End`, `RT_SHA256_End`, `RT_MD5_End`: the digest. -/
def hashEnd (ctx : HashCtx f) : Option (List (BitVec 8)) := do
  let block ← put ctx.block ctx.blockLen.toNat [0x80]
  let ctx := { ctx with block := block }
  let ctx := if 55 < ctx.blockLen then hashBlock ctx else ctx
  let block ← put ctx.block 56 (f.lengthBytes (ctx.messageLen * 8))
  let ctx := hashBlock { ctx with block := block }
  some (f.digestBytes ctx.hashValue)

variable (f)

/-- `RT_SHA1`, `RT_SHA256`, `RT_MD5` -/
def hashMessage (message : List (BitVec 8)) : Option (List (BitVec 8)) := do
  let ctx ← hashAppend (hashInit f) message
  hashEnd ctx

/-- `K0` before the pads: the key or its digest, and zeros. -/
def hmacKeyBlock (key : List (BitVec 8)) : Option (List (BitVec 8)) :=
  if key.length ≤ hashBlockSize then put (replicate hashBlockSize 0) 0 key
  else do
    let digest ← hashMessage f key
    put (replicate hashBlockSize 0) 0 digest

/-- `RT_HMAC_SHA1`, `RT_HMAC_SHA256`, `RT_HMAC_MD5`: what is stored in `MAC`. -/
def rtHmac (key message : List (BitVec 8)) (macLen : Nat) : Option (List (BitVec 8)) := do
  let k0 ← hmacKeyBlock f key
  let k0 := k0.map (· ^^^ 0x36)
  let ctx1 ← hashAppend (hashInit f) k0
  let ctx1 ← hashAppend ctx1 message
  let digest ← hashEnd ctx1
  let k0 := k0.map (· ^^^ (0x36 ^^^ 0x5c))
  let ctx2 ← hashAppend (hashInit f) k0
  let ctx2 ← hashAppend ctx2 digest
  let digest ← hashEnd ctx2
  some (digest.take (if f.digestSize < macLen then f.digestSize else macLen))

end

/-! ## The three functions -/

/-- The functions that have a context. -/
inductive HashAlgorithm
  | sha1
  | sha256
  | md5
deriving DecidableEq

/-- `cpu2be64` of the length -/
def be64Bytes (n : BitVec 64) : List (BitVec 8) :=
  be32Bytes (n.extractLsb' 32 32) ++ be32Bytes (n.extractLsb' 0 32)

def le64Bytes (n : BitVec 64) : List (BitVec 8) :=
  le32Bytes (n.extractLsb' 0 32) ++ le32Bytes (n.extractLsb' 32 32)

def sha1Function : HashFunction where
  Value := Sha1Value
  defaultHashValue := sha1DefaultHashValue
  compress := sha1Compress
  words := Sha1Value.words
  wordCount := 5
  length_words _ := rfl
  wordBytes := be32Bytes
  length_wordBytes _ := rfl
  fits := le_of_ble_eq_true rfl
  lengthBytes := be64Bytes
  length_lengthBytes _ := rfl

def sha256Function : HashFunction where
  Value := Sha256Value
  defaultHashValue := sha256DefaultHashValue
  compress := sha256Compress
  words := Sha256Value.words
  wordCount := 8
  length_words _ := rfl
  wordBytes := be32Bytes
  length_wordBytes _ := rfl
  fits := le_of_ble_eq_true rfl
  lengthBytes := be64Bytes
  length_lengthBytes _ := rfl

def md5Function : HashFunction where
  Value := Md5Value
  defaultHashValue := md5DefaultHashValue
  compress := md5Compress
  words := Md5Value.words
  wordCount := 4
  length_words _ := rfl
  wordBytes := le32Bytes
  length_wordBytes _ := rfl
  fits := le_of_ble_eq_true rfl
  lengthBytes := le64Bytes
  length_lengthBytes _ := rfl

def HashAlgorithm.function : HashAlgorithm → HashFunction
  | sha1 => sha1Function
  | sha256 => sha256Function
  | md5 => md5Function

def rtSha1 := hashMessage sha1Function

def rtSha256 := hashMessage sha256Function

def rtMd5 := hashMessage md5Function

def rtHmacSha1 := rtHmac sha1Function

def rtHmacSha256 := rtHmac sha256Function

def rtHmacMd5 := rtHmac md5Function

/-! ## Hashing -/

/-- `Init`, `Append` of the pieces in their order, and `End`. -/
def hashChunks (f : HashFunction) (chunks : List (List (BitVec 8))) : Option (List (BitVec 8)) := do
  let ctx ← chunks.foldlM hashAppend (hashInit f)
  hashEnd ctx

/-- The padded message, with its length in bits as a number of 64 bits. -/
def paddedMessage (f : HashFunction) (message : List (BitVec 8)) : List (BitVec 8) :=
  mdPad hashBlockSize 0x80 0 (f.lengthBytes (ofNat 64 (8 * message.length))) message

/-- The digest by definition: the block function folded over the padded message. -/
def messageDigest (f : HashFunction) (message : List (BitVec 8)) : List (BitVec 8) :=
  f.digestBytes (foldBlocks hashBlockSize f.compress f.defaultHashValue (paddedMessage f message))

/-- The context has taken in a text, of which a rest is still in `Block`. -/
structure Buffers {f : HashFunction} (ctx : HashCtx f) (tail text : List (BitVec 8)) : Prop where
  absorbed : Absorbed hashBlockSize f.compress f.defaultHashValue ctx.hashValue tail text
  block_eq : ctx.block = tail ++ replicate (hashBlockSize - tail.length) 0
  blockLen_eq : ctx.blockLen = ofNat 32 tail.length

section

variable {f : HashFunction} {ctx : HashCtx f} {tail text rest : List (BitVec 8)}

theorem hashBlockSize_pos : 0 < hashBlockSize := succ_pos 63

theorem buffers_init : Buffers (hashInit f) [] [] where
  absorbed := Absorbed.nil hashBlockSize_pos
  block_eq := rfl
  blockLen_eq := rfl

variable (h : Buffers ctx tail text)

include h

theorem Buffers.length_lt : tail.length < hashBlockSize := by
  rw [h.absorbed.length_tail]
  exact mod_lt _ hashBlockSize_pos

theorem Buffers.toNat_blockLen : ctx.blockLen.toNat = tail.length := by
  have hlt : tail.length < 64 := h.length_lt
  rw [h.blockLen_eq, toNat_ofNat, mod_eq_of_lt (by omega)]

theorem Buffers.put_block (part : List (BitVec 8))
    (hroom : tail.length + part.length ≤ hashBlockSize) : put ctx.block ctx.blockLen.toNat part =
      some (tail ++ (part ++ replicate (hashBlockSize - tail.length - part.length) 0)) := by
  have hzeros : replicate (hashBlockSize - tail.length) (0 : BitVec 8) =
      replicate part.length 0 ++
        replicate (hashBlockSize - tail.length - part.length) 0 := by
    rw [replicate_append_replicate]
    congr 1
    omega
  rw [h.block_eq, h.toNat_blockLen, hzeros]
  exact put_append rfl length_replicate

theorem Buffers.short (hlt : tail.length + rest.length < hashBlockSize) :
    Buffers { ctx with
      block := tail ++ (rest ++ replicate (hashBlockSize - tail.length - rest.length) 0)
      blockLen := ctx.blockLen + ofNat 32 rest.length } (tail ++ rest) (text ++ rest) where
  absorbed := h.absorbed.short hlt
  block_eq := by
    rw [length_append, sub_add_eq, append_assoc]
  blockLen_eq := by
    rw [length_append, ofNat_add, ← h.blockLen_eq]

theorem Buffers.full (rest : List (BitVec 8)) (hlen : tail.length + rest.length = hashBlockSize)
    (blockLen : BitVec 32) :
    Buffers (hashBlock { ctx with block := tail ++ rest, blockLen := blockLen }) []
      (text ++ rest) where
  absorbed := h.absorbed.full hashBlockSize_pos hlen
  block_eq := rfl
  blockLen_eq := rfl

theorem toNat_blockLen_add (hrest : rest.length < 2 ^ 32) :
    (ctx.blockLen + ofNat 32 rest.length).toNat =
      (tail.length + rest.length) % 2 ^ 32 := by
  rw [BitVec.toNat_add, h.toNat_blockLen, toNat_ofNat, mod_eq_of_lt hrest]

theorem hashAppendLoop_short (hnil : rest ≠ []) (hlt : tail.length + rest.length < hashBlockSize) :
    hashAppendLoop rest ctx = some { ctx with
      block := tail ++ (rest ++ replicate (hashBlockSize - tail.length - rest.length) 0)
      blockLen := ctx.blockLen + ofNat 32 rest.length } := by
  have hsmall : tail.length + rest.length < 64 := hlt
  have hbranch : ctx.blockLen + ofNat 32 rest.length < ofNat 32 hashBlockSize := by
    rw [lt_def, toNat_blockLen_add h (by omega), mod_eq_of_lt (by omega)]
    exact hlt
  rw [hashAppendLoop, dif_neg hnil, if_pos hbranch, h.put_block rest (Nat.le_of_lt hlt)]
  rfl

theorem hashAppendLoop_full (hnil : rest ≠ []) (hge : hashBlockSize ≤ tail.length + rest.length)
    (hfit : tail.length + rest.length < 2 ^ 32) :
    hashAppendLoop rest ctx = hashAppendLoop (rest.drop (hashBlockSize - tail.length))
      (hashBlock { ctx with
        block := tail ++ rest.take (hashBlockSize - tail.length)
        blockLen := ofNat 32 hashBlockSize }) := by
  have hbranch : ¬ctx.blockLen + ofNat 32 rest.length < ofNat 32 hashBlockSize := by
    rw [lt_def, toNat_blockLen_add h (by omega), mod_eq_of_lt hfit]
    exact Nat.not_lt.mpr hge
  -- the room that is left in the block
  have hroom : (ofNat 32 hashBlockSize - ctx.blockLen).toNat =
      hashBlockSize - tail.length := by
    have hle : ctx.blockLen ≤ ofNat 32 hashBlockSize := by
      rw [BitVec.le_def, h.toNat_blockLen]
      exact Nat.le_of_lt h.length_lt
    rw [BitVec.toNat_sub_of_le hle, h.toNat_blockLen]
    rfl
  have htake : (rest.take (hashBlockSize - tail.length)).length = hashBlockSize - tail.length :=
    length_take_of_le (by omega)
  have hput := h.put_block (rest.take (hashBlockSize - tail.length))
    (by rw [htake]; exact Nat.le_of_eq (Nat.add_sub_cancel' (Nat.le_of_lt h.length_lt)))
  rw [htake, Nat.sub_self, replicate_zero, append_nil] at hput
  rw [hashAppendLoop, dif_neg hnil, if_neg hbranch, hroom]
  dsimp only
  rw [hput]
  rfl

/-- **The loop** takes in a text that does not make the sum wrap.  The induction is on what is left;
    every pass that hashes leaves less of it. -/
theorem hashAppendLoop_of_fits (hfit : tail.length + rest.length < 2 ^ 32) :
    ∃ ctx' tail', hashAppendLoop rest ctx = some ctx' ∧ Buffers ctx' tail' (text ++ rest) ∧
      ctx'.messageLen = ctx.messageLen := by
  induction hn : rest.length using Nat.strongRecOn generalizing ctx tail text rest with
  | _ n ih =>
    by_cases hnil : rest = []
    · subst hnil
      refine ⟨ctx, tail, ?_, by rwa [append_nil], rfl⟩
      rw [hashAppendLoop, dif_pos rfl]
    by_cases hlt : tail.length + rest.length < hashBlockSize
    case pos => exact ⟨_, tail ++ rest, hashAppendLoop_short h hnil hlt, h.short hlt, rfl⟩
    case neg =>
      have htail := h.length_lt
      have hge := Nat.not_lt.mp hlt
      have htake : (rest.take (hashBlockSize - tail.length)).length =
          hashBlockSize - tail.length := length_take_of_le (by omega)
      have hdrop : (rest.drop (hashBlockSize - tail.length)).length =
          rest.length - (hashBlockSize - tail.length) := length_drop
      have hfull := h.full (rest.take (hashBlockSize - tail.length)) (by omega)
        (ofNat 32 hashBlockSize)
      have hpos := length_pos_iff.mpr hnil
      obtain ⟨ctx', tail', hrun, hbuffers, hmessage⟩ :=
        ih _ (by omega) hfull (by rw [length_nil]; omega) hdrop
      refine ⟨ctx', tail', ?_, ?_, hmessage⟩
      · rw [hashAppendLoop_full h hnil hge hfit, hrun]
      · rwa [append_assoc, take_append_drop] at hbuffers

theorem hashAppendLoop_of_wraps (hrest : rest.length < 2 ^ 32)
    (hwrap : 2 ^ 32 ≤ tail.length + rest.length) : hashAppendLoop rest ctx = none := by
  have htail : tail.length < 64 := h.length_lt
  have hnil : rest ≠ [] := ne_nil_of_length_pos (by omega)
  have hbranch : ctx.blockLen + ofNat 32 rest.length < ofNat 32 hashBlockSize := by
    have hsmall : (tail.length + rest.length) % 2 ^ 32 < 64 := by
      rw [mod_eq_sub_mod hwrap, mod_eq_of_lt (by omega)]
      omega
    rw [lt_def, toNat_blockLen_add h hrest]
    exact hsmall
  have hblock : ctx.block.length = 64 := by
    rw [h.block_eq, length_append, length_replicate]
    exact Nat.add_sub_cancel' (Nat.le_of_lt htail)
  have hput : put ctx.block ctx.blockLen.toNat rest = none := by
    rw [put, if_neg]
    rw [h.toNat_blockLen, hblock]
    omega
  rw [hashAppendLoop, dif_neg hnil, if_pos hbranch, hput]
  rfl

end

/-! ## Pieces -/

/-- No piece makes the sum of its length and of what is left in the block before it wrap.  `n` is
    the number of bytes before the pieces. -/
def PiecesFit : Nat → List (List (BitVec 8)) → Prop
  | _, [] => True
  | n, chunk :: chunks =>
    n % hashBlockSize + chunk.length < 2 ^ 32 ∧ PiecesFit (n + chunk.length) chunks

section

variable {f : HashFunction} {ctx : HashCtx f} {tail text : List (BitVec 8)}

/-- The context after a text. -/
structure Holds (ctx : HashCtx f) (text : List (BitVec 8)) : Prop where
  buffers : ∃ tail, Buffers ctx tail text
  messageLen_eq : ctx.messageLen = ofNat 64 text.length

theorem holds_init : Holds (hashInit f) [] := ⟨⟨[], buffers_init⟩, rfl⟩

/-- **`Append`** takes in a piece that fits. -/
theorem Holds.append (h : Holds ctx text) (chunk : List (BitVec 8))
    (hfit : text.length % hashBlockSize + chunk.length < 2 ^ 32) :
    ∃ ctx', hashAppend ctx chunk = some ctx' ∧ Holds ctx' (text ++ chunk) := by
  obtain ⟨⟨tail, hbuffers⟩, hmessage⟩ := h
  rw [← hbuffers.absorbed.length_tail] at hfit
  obtain ⟨ctx', tail', hrun, hbuffers', hmessage'⟩ := hashAppendLoop_of_fits hbuffers hfit
  refine ⟨{ ctx' with messageLen := ctx'.messageLen + ofNat 64 chunk.length }, ?run, ?holds⟩
  case run =>
    rw [hashAppend, hrun]
    rfl
  case holds =>
    refine ⟨⟨tail', hbuffers'.absorbed, hbuffers'.block_eq, hbuffers'.blockLen_eq⟩, ?_⟩
    rw [hmessage', hmessage, length_append, ofNat_add]

theorem Holds.append_eq_none (h : Holds ctx text) {chunk : List (BitVec 8)}
    (hchunk : chunk.length < 2 ^ 32) (hwrap : 2 ^ 32 ≤ text.length % hashBlockSize + chunk.length) :
    hashAppend ctx chunk = none := by
  obtain ⟨⟨tail, hbuffers⟩, -⟩ := h
  rw [← hbuffers.absorbed.length_tail] at hwrap
  rw [hashAppend, hashAppendLoop_of_wraps hbuffers hchunk hwrap]
  rfl

/-- **All pieces**, one after the other. -/
theorem Holds.appendAll {chunks : List (List (BitVec 8))} (h : Holds ctx text)
    (hfit : PiecesFit text.length chunks) :
    ∃ ctx', chunks.foldlM hashAppend ctx = some ctx' ∧ Holds ctx' (text ++ chunks.flatten) := by
  induction chunks generalizing ctx text with
  | nil => exact ⟨ctx, rfl, by rwa [flatten_nil, append_nil]⟩
  | cons chunk chunks ih =>
    obtain ⟨hchunk, hrest⟩ := hfit
    obtain ⟨ctx', hrun, hholds⟩ := h.append chunk hchunk
    obtain ⟨ctx'', hruns, hholds'⟩ := ih hholds (by rwa [length_append])
    refine ⟨ctx'', ?_, by rwa [flatten_cons, ← append_assoc]⟩
    rw [foldlM_cons, hrun]
    exact hruns

theorem Holds.appendAll_eq_none {chunks : List (List (BitVec 8))} (h : Holds ctx text)
    (hchunks : ∀ chunk ∈ chunks, chunk.length < 2 ^ 32) (hwrap : ¬PiecesFit text.length chunks) :
    chunks.foldlM hashAppend ctx = none := by
  induction chunks generalizing ctx text with
  | nil => exact absurd trivial hwrap
  | cons chunk chunks ih =>
    rw [foldlM_cons]
    by_cases hfit : text.length % hashBlockSize + chunk.length < 2 ^ 32
    · obtain ⟨ctx', hrun, hholds⟩ := h.append chunk hfit
      rw [hrun]
      refine ih hholds (fun c hc => hchunks c (mem_cons_of_mem _ hc)) fun hrest => hwrap ?_
      exact ⟨hfit, by rwa [length_append] at hrest⟩
    · rw [h.append_eq_none (hchunks chunk mem_cons_self) (Nat.not_lt.mp hfit)]
      rfl

end

/-! ## The end -/

section

variable {f : HashFunction} {ctx : HashCtx f} {tail text : List (BitVec 8)}

def markedBlock (tail : List (BitVec 8)) : List (BitVec 8) :=
  tail ++ 0x80 :: replicate (hashBlockSize - tail.length - 1) 0

theorem Buffers.put_marker (h : Buffers ctx tail text) :
    put ctx.block ctx.blockLen.toNat [0x80] = some (markedBlock tail) :=
  h.put_block [0x80] h.length_lt

theorem length_markedBlock (h : tail.length < hashBlockSize) :
    (markedBlock tail).length = hashBlockSize := by
  simp only [markedBlock, length_append, length_cons, length_replicate]
  omega

theorem put_lengthBytes {start : List (BitVec 8)} {field : List (BitVec 8)}
    (hstart : start.length = 56) (hfield : field.length = 8) :
    put (start ++ replicate 8 0) 56 field = some (start ++ field) := by
  have hlen : (replicate 8 (0 : BitVec 8)).length = field.length := by
    rw [length_replicate, hfield]
  have h : put (start ++ (replicate 8 0 ++ [])) 56 field = some (start ++ (field ++ [])) :=
    put_append hstart hlen
  rwa [append_nil, append_nil] at h

/-- **`End`** returns the digest of the text that was taken in. -/
theorem hashEnd_eq (h : Holds ctx text) : hashEnd ctx = some (messageDigest f text) := by
  obtain ⟨⟨tail, hbuffers⟩, hmessage⟩ := h
  have htail : tail.length < 64 := hbuffers.length_lt
  have hmod : tail.length = text.length % 64 := hbuffers.absorbed.length_tail
  have hfield : f.lengthBytes (ctx.messageLen * 8) =
      f.lengthBytes (ofNat 64 (8 * text.length)) := by
    rw [hmessage, Nat.mul_comm, BitVec.ofNat_mul]
    rfl
  have hlength := f.length_lengthBytes (ofNat 64 (8 * text.length))
  have hpad := hbuffers.absorbed.foldBlocks_append hashBlockSize_pos
    (mdPadding hashBlockSize 0x80 0 (f.lengthBytes (ofNat 64 (8 * text.length)))
      text.length)
  rw [hashEnd, hbuffers.put_marker]
  simp only [bind_eq_bind, bind_some]
  rw [messageDigest, paddedMessage, mdPad, hpad, mdPadding, hlength]
  by_cases hlong : 55 < tail.length
  case pos =>
    -- an extra block: zeros up to the end of this one, and 56 zeros before the length
    have hbranch : (55 : BitVec 32) < ctx.blockLen := by
      rw [lt_def, hbuffers.toNat_blockLen]
      exact hlong
    have hzeros : replicate (padZeros hashBlockSize (text.length + 1 + 8)) (0 : BitVec 8) =
        replicate (hashBlockSize - tail.length - 1) 0 ++ replicate 56 0 := by
      rw [replicate_append_replicate, padZeros, hashBlockSize]
      congr 1
      omega
    have hput : put (replicate hashBlockSize 0) 56
        (f.lengthBytes (ofNat 64 (8 * text.length))) =
          some (replicate 56 0 ++ f.lengthBytes (ofNat 64 (8 * text.length))) := by
      have h56 : (replicate 56 (0 : BitVec 8)).length = 56 := length_replicate
      have h := put_lengthBytes h56 hlength
      rwa [replicate_append_replicate] at h
    have hlast : (replicate 56 0 ++
        f.lengthBytes (ofNat 64 (8 * text.length))).length = hashBlockSize := by
      rw [length_append, length_replicate, hlength]
      rfl
    have hblocks : tail ++ 0x80 :: (replicate (hashBlockSize - tail.length - 1) 0 ++
        replicate 56 0 ++ f.lengthBytes (ofNat 64 (8 * text.length))) =
          markedBlock tail ++
            (replicate 56 0 ++ f.lengthBytes (ofNat 64 (8 * text.length))) := by
      simp only [markedBlock, append_assoc, cons_append]
    rw [if_pos hbranch, hzeros, hblocks,
      foldBlocks_cons hashBlockSize_pos (length_markedBlock htail),
      foldBlocks_block hashBlockSize_pos hlast]
    simp only [hashBlock, hfield, hput, bind_some]
  case neg =>
    have hbranch : ¬(55 : BitVec 32) < ctx.blockLen := by
      rw [lt_def, hbuffers.toNat_blockLen]
      exact hlong
    have hzeros : padZeros hashBlockSize (text.length + 1 + 8) = 55 - tail.length := by
      rw [padZeros, hashBlockSize]
      omega
    have hstart : (tail ++ 0x80 :: replicate (55 - tail.length) 0).length = 56 := by
      simp only [length_append, length_cons, length_replicate]
      omega
    have hmarked : markedBlock tail =
        (tail ++ 0x80 :: replicate (55 - tail.length) 0) ++ replicate 8 0 := by
      have hroom : hashBlockSize - tail.length - 1 = (55 - tail.length) + 8 := by
        rw [hashBlockSize]
        omega
      rw [markedBlock, hroom, ← replicate_append_replicate]
      simp only [append_assoc, cons_append]
    have hlast : ((tail ++ 0x80 :: replicate (55 - tail.length) 0) ++
        f.lengthBytes (ofNat 64 (8 * text.length))).length = hashBlockSize := by
      rw [length_append, hstart, hlength]
      rfl
    have hblock : tail ++ 0x80 :: (replicate (55 - tail.length) 0 ++
        f.lengthBytes (ofNat 64 (8 * text.length))) =
          (tail ++ 0x80 :: replicate (55 - tail.length) 0) ++
            f.lengthBytes (ofNat 64 (8 * text.length)) := by
      simp only [append_assoc, cons_append]
    rw [if_neg hbranch, hzeros, hblock, foldBlocks_block hashBlockSize_pos hlast]
    simp only [hmarked, hfield, put_lengthBytes hstart hlength, bind_some, hashBlock]

end

/-! ## What is hashed -/

/-- The key block by definition: the key, or its digest if it is longer than a block, and zeros. -/
def hmacKey (f : HashFunction) (key : List (BitVec 8)) : List (BitVec 8) :=
  let k := if key.length ≤ hashBlockSize then key else messageDigest f key
  k ++ replicate (hashBlockSize - k.length) 0

def hmac (f : HashFunction) (key message : List (BitVec 8)) : List (BitVec 8) :=
  messageDigest f ((hmacKey f key).map (· ^^^ 0x5c) ++
    messageDigest f ((hmacKey f key).map (· ^^^ 0x36) ++ message))

section

variable (f : HashFunction) {key message : List (BitVec 8)} {chunks : List (List (BitVec 8))}

theorem hashChunks_of_fits (hfit : PiecesFit 0 chunks) :
    hashChunks f chunks = some (messageDigest f chunks.flatten) := by
  obtain ⟨ctx, hrun, hholds⟩ := (holds_init (f := f)).appendAll hfit
  rw [hashChunks, hrun]
  exact hashEnd_eq hholds

/-- **Pieces** are hashed as the whole message exactly if no sum of lengths wraps. -/
theorem hashChunks_eq_some_iff (hchunks : ∀ chunk ∈ chunks, chunk.length < 2 ^ 32) :
    hashChunks f chunks = some (messageDigest f chunks.flatten) ↔ PiecesFit 0 chunks := by
  constructor
  · intro h
    by_contra hwrap
    have hnone : hashChunks f chunks = none := by
      rw [hashChunks, (holds_init (f := f)).appendAll_eq_none hchunks hwrap]
      rfl
    exact nomatch hnone.symm.trans h
  · exact hashChunks_of_fits f

theorem hashMessage_eq (hmessage : message.length < 2 ^ 32) :
    hashMessage f message = some (messageDigest f message) := by
  obtain ⟨ctx, hrun, hholds⟩ := (holds_init (f := f)).append message
    (by rwa [length_nil, zero_mod, Nat.zero_add])
  rw [hashMessage, hrun]
  exact hashEnd_eq hholds

theorem length_messageDigest (message : List (BitVec 8)) :
    (messageDigest f message).length = f.digestSize := by
  have hbytes : ∀ ws : List (BitVec 32), (ws.flatMap f.wordBytes).length = 4 * ws.length := by
    intro ws
    induction ws with
    | nil => rfl
    | cons w ws ih =>
      rw [flatMap_cons, length_append, f.length_wordBytes, ih, length_cons]
      omega
  rw [messageDigest, HashFunction.digestBytes, hbytes, f.length_words]
  rfl

theorem length_hmacKey (key : List (BitVec 8)) : (hmacKey f key).length = hashBlockSize := by
  have hfits : f.digestSize ≤ hashBlockSize := f.fits
  unfold hmacKey
  dsimp only
  split
  · next h =>
    rw [length_append, length_replicate]
    exact Nat.add_sub_cancel' h
  · rw [length_append, length_replicate, length_messageDigest]
    exact Nat.add_sub_cancel' hfits

theorem put_zeros {src : List (BitVec 8)} (h : src.length ≤ hashBlockSize) :
    put (replicate hashBlockSize 0) 0 src =
      some (src ++ replicate (hashBlockSize - src.length) 0) := by
  have hzeros : replicate hashBlockSize (0 : BitVec 8) =
      [] ++ (replicate src.length 0 ++ replicate (hashBlockSize - src.length) 0) := by
    rw [nil_append, replicate_append_replicate, Nat.add_sub_cancel' h]
  rw [hzeros]
  exact put_append rfl length_replicate

theorem hmacKeyBlock_eq (hkey : key.length < 2 ^ 32) :
    hmacKeyBlock f key = some (hmacKey f key) := by
  unfold hmacKeyBlock hmacKey
  by_cases hshort : key.length ≤ hashBlockSize
  · rw [if_pos hshort, if_pos hshort, put_zeros hshort]
  · have hfits : (messageDigest f key).length ≤ hashBlockSize := by
      rw [length_messageDigest]
      exact f.fits
    rw [if_neg hshort, if_neg hshort, hashMessage_eq f hkey]
    exact put_zeros hfits

theorem hash_block_then (block : List (BitVec 8)) (hblock : block.length = hashBlockSize)
    (hmessage : message.length < 2 ^ 32) :
    ((hashAppend (hashInit f) block).bind fun ctx => (hashAppend ctx message).bind hashEnd) =
      some (messageDigest f (block ++ message)) := by
  obtain ⟨ctx, hrun, hholds⟩ := (holds_init (f := f)).append block
    (by rw [hblock]; decide)
  obtain ⟨ctx', hrun', hholds'⟩ := hholds.append message (by
    rw [nil_append, hblock, mod_self, Nat.zero_add]
    exact hmessage)
  rw [hrun, bind_some, hrun', bind_some]
  exact hashEnd_eq hholds'

/-- **HMAC**: both pads are what the definition says, and the digest is cut to `MACLen`. -/
theorem rtHmac_eq (hkey : key.length < 2 ^ 32) (hmessage : message.length < 2 ^ 32) (macLen : Nat) :
    rtHmac f key message macLen = some ((hmac f key message).take macLen) := by
  have hblock : ∀ g : BitVec 8 → BitVec 8, ((hmacKey f key).map g).length = hashBlockSize := by
    intro g
    rw [length_map, length_hmacKey]
  -- the second pad is applied to what the first one left
  have hpads : ((hmacKey f key).map (· ^^^ 0x36)).map (· ^^^ (0x36 ^^^ 0x5c)) =
      (hmacKey f key).map (· ^^^ 0x5c) := by
    rw [List.map_map]
    refine map_congr_left fun b _ => ?_
    show (b ^^^ 0x36) ^^^ (0x36 ^^^ 0x5c) = b ^^^ 0x5c
    rw [BitVec.xor_assoc, ← BitVec.xor_assoc 0x36, BitVec.xor_self, BitVec.zero_xor]
  have hinner := hash_block_then f _ (hblock (· ^^^ 0x36)) hmessage
  have hdigest : (messageDigest f ((hmacKey f key).map (· ^^^ 0x36) ++ message)).length <
      2 ^ 32 := by
    have hfits : f.digestSize ≤ 64 := f.fits
    rw [length_messageDigest]
    omega
  have houter := hash_block_then f _ (hblock (· ^^^ 0x5c)) hdigest
  have htake : (hmac f key message).take (if f.digestSize < macLen then f.digestSize else macLen) =
      (hmac f key message).take macLen := by
    have hlen : (hmac f key message).length = f.digestSize := length_messageDigest f _
    split
    · next hlt =>
      rw [take_of_length_le (Nat.le_of_eq hlen), take_of_length_le (by omega)]
    · rfl
  obtain ⟨ctx1, hpad1, hrest1⟩ := bind_eq_some_iff.mp hinner
  obtain ⟨ctx1', htext1, hend1⟩ := bind_eq_some_iff.mp hrest1
  obtain ⟨ctx2, hpad2, hrest2⟩ := bind_eq_some_iff.mp houter
  obtain ⟨ctx2', htext2, hend2⟩ := bind_eq_some_iff.mp hrest2
  rw [rtHmac, hmacKeyBlock_eq f hkey, ← htake]
  simp only [bind_eq_bind, bind_some, hpad1, htext1, hend1, hpads, hpad2, htext2, hend2]
  rfl

theorem hashChunks_wraps (alg : HashAlgorithm) :
    hashChunks alg.function [[0], replicate (2 ^ 32 - 1) 0] = none := by
  have hlong : (replicate (2 ^ 32 - 1) (0 : BitVec 8)).length = 2 ^ 32 - 1 :=
    length_replicate
  have hchunks : ∀ chunk ∈ [[0], replicate (2 ^ 32 - 1) (0 : BitVec 8)],
      chunk.length < 2 ^ 32 := by
    intro chunk hmem
    rcases mem_cons.mp hmem with rfl | hmem
    · decide
    · rw [mem_singleton.mp hmem, hlong]
      decide
  have hwrap : ¬PiecesFit 0 [[0], replicate (2 ^ 32 - 1) (0 : BitVec 8)] := by
    rintro ⟨-, hsum, -⟩
    rw [hlong] at hsum
    exact absurd hsum (by decide)
  rw [hashChunks, (holds_init (f := alg.function)).appendAll_eq_none hchunks hwrap]
  rfl

end

end RalinkSdk.Crypt
