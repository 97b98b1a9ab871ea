import RalinkSdk.Lib.BlockMode

/-!
# AES-CCM

`AES_CCM_MAC`, `AES_CCM_Encrypt` and `AES_CCM_Decrypt`, for an arbitrary function `E` of a key
and a block in the place of `RT_AES_Encrypt`.  Texts lie in memory and may overlap; nonces and
authenticated data are lists.

## Source

`common/crypt_aes.c`.
-/

namespace RalinkSdk.Ccmp

open Lib Function List
open BitVec (ofNat)

variable (E : Block → Block → Block)

/-! ## The functions -/

/-- The first block of `AES_CCM_MAC`: control information, nonce and length. -/
def formatControl (nonce aad : List (BitVec 8)) (macLength payloadLength : Nat) : Block := fun i =>
  if i = 15 then ofNat 8 payloadLength
  else if i = 14 then ofNat 8 (payloadLength >>> 8)
  else if i = 13 ∧ nonce.length < 13 then ofNat 8 (payloadLength >>> 16)
  else if i = 12 ∧ nonce.length < 12 then ofNat 8 (payloadLength >>> 24)
  else if i = 0 then
    (if aad = [] then 0 else 0x40) ||| ofNat 8 (((macLength - 2) >>> 1) <<< 3) |||
      ofNat 8 (15 - nonce.length - 1)
  else nonce.getD (i - 1) 0

/-- The start of the first block of the authenticated data: their length, in 2 or in 6 bytes. -/
def aadPrefix (n : Nat) : List (BitVec 8) :=
  if 0 < n ∧ n < 0xff00 then [ofNat 8 (n >>> 8), ofNat 8 n]
  else [0, 0, ofNat 8 (n >>> 24), ofNat 8 (n >>> 16), ofNat 8 (n >>> 8),
    ofNat 8 n]

/-- A block that starts with these bytes. -/
def blockOfList (bytes : List (BitVec 8)) : Block := fun i => bytes.getD i 0

/-- The loop of `AES_CCM_MAC` over the authenticated data: `start` stands at the start of the
    block, and `aad` is what is left. -/
def aadLoop (key : Block) (start aad : List (BitVec 8)) (mac : Block) : Block :=
  if _h : aad = [] ∨ 16 ≤ start.length then mac
  else
    let n := min aad.length (16 - start.length)
    aadLoop key [] (aad.drop n) (E key ((blockOfList (start ++ aad.take n)).xor mac))
termination_by aad.length
decreasing_by
  have hpos := length_pos_iff.mpr (not_or.mp _h).1
  rw [length_drop]
  omega

/-- The loop of `AES_CCM_MAC` over the payload. -/
def payloadLoop (key : Block) (payload : Bytes) (length index : Nat) (mac : Block) : Block :=
  if index < length then
    let n := min (length - index) 16
    let block : Block := fun i => if i.val < n then payload (index + i) else 0
    payloadLoop key payload length (index + n) (E key (block.xor mac))
  else mac
termination_by length - index

/-- `AES_CCM_MAC`: the MAC is made of the first `MACLength` bytes. -/
def aesCcmMac (payload : Bytes) (payloadLength : Nat) (key : Block) (nonce aad : List (BitVec 8))
    (macLength : Nat) : Block :=
  let mac := E key (formatControl nonce aad macLength payloadLength)
  let mac := aadLoop E key (aadPrefix aad.length) aad mac
  payloadLoop E key payload payloadLength 0 mac

/-- The first counter block. -/
def formatCounter (nonce : List (BitVec 8)) : Block := fun i =>
  if i = 0 then ofNat 8 (15 - nonce.length - 1) else nonce.getD (i - 1) 0

/-- The next counter block: only its last byte counts. -/
def nextCounter (ctr : Block) : Block := update ctr 15 (ctr 15 + 1)

/-- The loop over the bytes of a block: byte after byte, in place. -/
def xorBytes (mem : Bytes) (dst src : Nat) (ks : Block) : Nat → Bytes
  | 0 => mem
  | n + 1 =>
    let mem := xorBytes mem dst src ks n
    update mem (dst + n) (mem (src + n) ^^^ ks (Fin.ofNat 16 n))

/-- The loop of `AES_CCM_Encrypt` and of `AES_CCM_Decrypt` over the payload. -/
def cipherLoop (key : Block) (dst src length : Nat) (ctr : Block) (mem : Bytes) (index : Nat) :
    Bytes :=
  if index < length then
    let ctr := nextCounter ctr
    let n := min (length - index) 16
    cipherLoop key dst src length ctr
      (xorBytes mem (dst + index) (src + index) (E key ctr) n) (index + n)
  else mem
termination_by length - index

def macLengths : List Nat := [4, 6, 8, 10, 12, 14, 16]

/-- `AES_CCM_Encrypt`: the function value, the memory and the length of the cipher text. -/
def aesCcmEncrypt (mem : Bytes) (plain : Nat) (plainLength : BitVec 32) (key : Block)
    (keyLength : Nat) (nonce aad : List (BitVec 8)) (macLength cipher : Nat)
    (cipherLength : BitVec 32) : Int × Bytes × BitVec 32 :=
  let total := plainLength + ofNat 32 macLength
  if keyLength ≠ 16 then (-1, mem, cipherLength)
  else if nonce.length < 7 ∨ 13 < nonce.length then (-2, mem, cipherLength)
  else if macLength ∉ macLengths then (-3, mem, cipherLength)
  else if cipherLength < total then (-4, mem, cipherLength)
  else
    let ctr := formatCounter nonce
    let mac := (aesCcmMac E (mem.at plain) plainLength.toNat key nonce aad macLength).xor (E key ctr)
    let mem := cipherLoop E key cipher plain plainLength.toNat ctr mem 0
    let mem := memcpy mem (cipher + plainLength.toNat) (fun i => mac (Fin.ofNat 16 i)) macLength
    (0, mem, total)

/-- The first `n` bytes of two blocks are the same. -/
def sameBytes (a b : Block) (n : Nat) : Bool := decide (∀ i : Fin 16, i.val < n → a i = b i)

theorem sameBytes_congr {a a' b b' : Block} {n : Nat} (ha : ∀ i : Fin 16, i.val < n → a i = a' i)
    (hb : ∀ i : Fin 16, i.val < n → b i = b' i) : sameBytes a b n = sameBytes a' b' n := by
  unfold sameBytes
  refine decide_eq_decide.mpr (forall_congr' fun i => forall_congr' fun hi => ?_)
  rw [ha i hi, hb i hi]

/-- `AES_CCM_Decrypt`: the function value, the memory and the length of the plain text. -/
def aesCcmDecrypt (mem : Bytes) (cipher : Nat) (cipherLength : BitVec 32) (key : Block)
    (keyLength : Nat) (nonce aad : List (BitVec 8)) (macLength plain : Nat)
    (plainLength : BitVec 32) : Int × Bytes × BitVec 32 :=
  let length := cipherLength - ofNat 32 macLength
  if keyLength ≠ 16 then (-1, mem, plainLength)
  else if nonce.length < 7 ∨ 13 < nonce.length then (-2, mem, plainLength)
  else if macLength ∉ macLengths then (-3, mem, plainLength)
  else if plainLength < length then (-4, mem, plainLength)
  else
    let ctr := formatCounter nonce
    let macFromCipher : Block := fun i => mem (cipher + length.toNat + i) ^^^ E key ctr i
    let mem := cipherLoop E key plain cipher length.toNat ctr mem 0
    let mac := aesCcmMac E (mem.at plain) length.toNat key nonce aad macLength
    if sameBytes macFromCipher mac macLength then (0, mem, length) else (-5, mem, length)

/-! ## What the loops compute -/

section

variable (key : Block) (payload : Bytes) (length : Nat)

theorem payloadLoop_stop {index : Nat} (h : length ≤ index) (mac : Block) :
    payloadLoop E key payload length index mac = mac := by
  rw [payloadLoop, if_neg (not_lt.mpr h)]

theorem block_eq_padBlock (j : Nat) :
    (fun i : Fin 16 => if i.val < min (length - 16 * j) 16 then payload (16 * j + i) else 0) =
      padBlock payload length j := by
  funext i
  have hi := i.isLt
  unfold padBlock
  by_cases h : 16 * j + i.val < length
  · rw [if_pos h, if_pos (by omega)]
  · rw [if_neg h, if_neg (by omega)]

theorem dataBlocks_drop {j : Nat} (h : 16 * j < length) : (dataBlocks payload length).drop j =
      padBlock payload length j :: (dataBlocks payload length).drop (j + 1) := by
  have hj : j < (dataBlocks payload length).length := by
    simp only [dataBlocks, length_map, length_range]
    omega
  rw [drop_eq_getElem_cons hj]
  simp [dataBlocks]

theorem dataBlocks_drop_of_le {j : Nat} (h : length ≤ 16 * j) :
    (dataBlocks payload length).drop j = [] := by
  apply drop_eq_nil_of_le
  simp only [dataBlocks, length_map, length_range]
  omega

/-- **The payload** goes into the chain in padded blocks. -/
theorem payloadLoop_eq (j : Nat) (mac : Block) : payloadLoop E key payload length (16 * j) mac =
      cbcMac (E key) mac ((dataBlocks payload length).drop j) := by
  induction hk : length - 16 * j using Nat.strong_induction_on generalizing j mac with
  | _ k ih =>
    by_cases hj : 16 * j < length
    · rw [payloadLoop, if_pos hj, dataBlocks_drop payload length hj, cbcMac_cons]
      dsimp only
      rw [block_eq_padBlock]
      rcases le_or_gt (16 * (j + 1)) length with hfull | hshort
      · rw [show 16 * j + min (length - 16 * j) 16 = 16 * (j + 1) by omega]
        exact ih _ (by omega) (j + 1) _ rfl
      · rw [payloadLoop_stop E key payload length (by omega),
          dataBlocks_drop_of_le payload length hshort.le, cbcMac_nil]
    · rw [payloadLoop_stop E key payload length (not_lt.mp hj),
        dataBlocks_drop_of_le payload length (not_lt.mp hj), cbcMac_nil]

end

/-- **The MAC** is the chain over the three kinds of blocks. -/
theorem aesCcmMac_eq (payload : Bytes) (payloadLength : Nat) (key : Block)
    (nonce aad : List (BitVec 8)) (macLength : Nat) :
    aesCcmMac E payload payloadLength key nonce aad macLength =
      cbcMac (E key) (aadLoop E key (aadPrefix aad.length) aad
        (E key (formatControl nonce aad macLength payloadLength)))
        (dataBlocks payload payloadLength) := by
  have hloop := payloadLoop_eq E key payload payloadLength 0
    (aadLoop E key (aadPrefix aad.length) aad
      (E key (formatControl nonce aad macLength payloadLength)))
  rwa [drop_zero, Nat.mul_zero] at hloop

theorem aesCcmMac_congr {payload payload' : Bytes} {n : Nat} (h : ∀ i < n, payload i = payload' i)
    (key : Block) (nonce aad : List (BitVec 8)) (macLength : Nat) :
    aesCcmMac E payload n key nonce aad macLength =
      aesCcmMac E payload' n key nonce aad macLength := by
  rw [aesCcmMac_eq, aesCcmMac_eq, dataBlocks_congr h]

/-! ### The cipher loop -/

/-- The counter block after `k` steps. -/
def counterAt (ctr : Block) (k : Nat) : Block :=
  update ctr 15 (ctr 15 + ofNat 8 k)

@[simp] theorem counterAt_zero (ctr : Block) : counterAt ctr 0 = ctr := by
  simp [counterAt]

theorem nextCounter_counterAt (ctr : Block) (k : Nat) :
    nextCounter (counterAt ctr k) = counterAt ctr (k + 1) := by
  unfold nextCounter counterAt
  rw [update_self, update_idem, BitVec.add_assoc, BitVec.ofNat_add]
  rfl

/-- The stream of bytes that is combined with a text. -/
def ccmStream (key ctr : Block) : Nat → BitVec 8 := keystream (E key) (counterAt ctr)

theorem xorBytes_eq {dst src n : Nat} (hsep : dst ≤ src ∨ src + n ≤ dst) (mem : Bytes)
    (ks : Block) :
    xorBytes mem dst src ks n = xorStream (fun i => ks (Fin.ofNat 16 i)) mem dst src n := by
  induction n with
  | zero => simp [xorBytes]
  | succ n ih =>
    have hread : xorStream (fun i => ks (Fin.ofNat 16 i)) mem dst src n (src + n) =
        mem (src + n) := xorStream_ahead hsep Nat.one_pos
    simp only [xorBytes]
    rw [ih (by omega), hread]
    funext a
    by_cases ha : a = dst + n
    · subst ha
      rw [update_self, xorStream_add (Nat.lt_succ_self n)]
    · rw [update_of_ne ha]
      unfold xorStream
      by_cases hin : dst ≤ a ∧ a < dst + n
      · rw [if_pos hin, if_pos ⟨hin.1, by omega⟩]
      · rw [if_neg hin, if_neg (by omega)]

section

variable (key ctr : Block) {dst src length : Nat}

theorem cipherLoop_stop (dst src : Nat) {index : Nat} (h : length ≤ index) (mem : Bytes) :
    cipherLoop E key dst src length ctr mem index = mem := by
  rw [cipherLoop, if_neg (not_lt.mpr h)]

theorem cipherLoop_from (hsep : dst ≤ src ∨ src + length ≤ dst) (mem : Bytes) {j : Nat}
    (hj : 16 * j ≤ length) : cipherLoop E key dst src length (counterAt ctr j)
        (xorStream (ccmStream E key ctr) mem dst src (16 * j)) (16 * j) =
      xorStream (ccmStream E key ctr) mem dst src length := by
  induction hk : length - 16 * j using Nat.strong_induction_on generalizing j with
  | _ k ih =>
    rcases hj.lt_or_eq with hlt | heq
    · rw [cipherLoop, if_pos hlt]
      dsimp only
      rw [nextCounter_counterAt, xorBytes_eq (by omega)]
      have hks : ∀ i < min (length - 16 * j) 16, E key (counterAt ctr (j + 1)) (Fin.ofNat 16 i) =
          ccmStream E key ctr (16 * j + i) := by
        intro i hi
        unfold ccmStream keystream
        rw [show (16 * j + i) / 16 = j by omega]
        congr 1
        exact Fin.ext (by simp [Fin.ofNat])
      rw [xorStream_congr hks, xorStream_extend (by omega)]
      rcases le_or_gt (16 * (j + 1)) length with hfull | hshort
      · rw [show 16 * j + min (length - 16 * j) 16 = 16 * (j + 1) by omega]
        exact ih _ (by omega) hfull rfl
      · rw [show 16 * j + min (length - 16 * j) 16 = length by omega]
        exact cipherLoop_stop E key _ dst src le_rfl _
    · rw [heq]
      exact cipherLoop_stop E key _ dst src le_rfl _

/-- **The cipher loop** combines the text with the stream. -/
theorem cipherLoop_eq (hsep : dst ≤ src ∨ src + length ≤ dst) (mem : Bytes) :
    cipherLoop E key dst src length ctr mem 0 =
      xorStream (ccmStream E key ctr) mem dst src length := by
  have hloop := cipherLoop_from E key ctr hsep mem (j := 0) (Nat.zero_le _)
  rwa [Nat.mul_zero, counterAt_zero, xorStream_zero] at hloop

end

end RalinkSdk.Ccmp
