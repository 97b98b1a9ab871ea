import Mathlib.Tactic.FinCases
import RalinkSdk.Ccmp.SoftCcmp

/-!
# The other CCMP decryptor

`RTMPSoftDecryptAES` builds the blocks of the MIC and the counter blocks by hand from the
bytes of the frame.  For data frames it does what `RTMPSoftDecryptCCMP` does through the general
CCM code, as long as bit 6 of the subtype is clear (which it does not mask) and the blocks can
be counted in one byte (in which the other one counts).

## Source

`common/cmm_aes.c`.
-/

namespace RalinkSdk.Ccmp

open Lib List Function BitVec Nat
open BitVec (ofNat)

/-! ## The blocks -/

def headerLen (mpdu : Bytes) : Nat :=
  24 + (if a4Exists mpdu then 6 else 0) + (if qcExists mpdu then 2 else 0)

def constructMicHeader1 (headerLength : Nat) (mpdu : Bytes) : Block := fun i =>
  if i = 0 then ofNat 8 ((headerLength - 2) / 256)
  else if i = 1 then ofNat 8 ((headerLength - 2) % 256)
  else if i = 2 then mpdu 0 &&& 0xcf
  else if i = 3 then mpdu 1 &&& 0xc7
  else mpdu i

def constructMicHeader2 (mpdu : Bytes) (a4 qc : Bool) : Block := fun i =>
  if i < 6 then mpdu (i + 16)
  else if i = 6 then mpdu 22 &&& 0x0f
  else if i = 7 then 0
  else if a4 && i.val < 14 then mpdu (i + 16)
  else if qc && !a4 && i == 8 then mpdu 24 &&& 0x0f
  else if qc && a4 && i == 14 then mpdu 30 &&& 0x0f
  else 0

/-- The QoS byte of the IV and of the counter blocks. -/
def qosByte (mpdu : Bytes) (a4 qc : Bool) : BitVec 8 :=
  if qc && a4 then mpdu 30 &&& 0x0f
  else if qc && !a4 then mpdu 24 &&& 0x0f
  else 0

def constructMicIv (qc a4 : Bool) (mpdu : Bytes) (payloadLength : Nat) (pn : Bytes) : Block := fun i =>
  if i = 0 then 0x59
  else if i = 1 then qosByte mpdu a4 qc
  else if i < 8 then mpdu (i + 8)
  else if i < 14 then pn (13 - i)
  else if i = 14 then ofNat 8 (payloadLength / 256)
  else ofNat 8 (payloadLength % 256)

def constructCtrPreload (a4 qc : Bool) (mpdu pn : Bytes) (c : Nat) : Block := fun i =>
  if i = 0 then 0x01
  else if i = 1 then qosByte mpdu a4 qc
  else if i < 8 then mpdu (i + 8)
  else if i < 14 then pn (13 - i)
  else if i = 14 then ofNat 8 (c / 256)
  else ofNat 8 (c % 256)

section

variable (E : Block → Block → Block)

/-! ## The function -/

/-- Up to 16 bytes of memory, padded with zeros. -/
def padded (mem : Bytes) (index n : Nat) : Block := fun i => if i.val < n then mem (index + i) else 0

/-- The decryption of one block of `n` bytes, which is moved down by 8 bytes. -/
def decryptBlock (key : Block) (a4 qc : Bool) (pn : Bytes) (p : Nat) (mem : Bytes) (index c n : Nat) :
    Bytes :=
  let aesOut := E key (constructCtrPreload a4 qc (mem.at p) pn c)
  let chain := aesOut.xor (padded mem index n)
  memcpy mem (index - 8) (fun i => chain (Fin.ofNat 16 i)) n

/-- The loop over the full blocks. -/
def decryptBlocks (key : Block) (a4 qc : Bool) (pn : Bytes) (p : Nat) (mem : Bytes) (index : Nat) :
    Nat → Bytes
  | 0 => mem
  | k + 1 =>
    decryptBlock E key a4 qc pn p (decryptBlocks key a4 qc pn p mem index k) (index + 16 * k) (k + 1)
      16

/-- The decryption of the body: full blocks, then a short one if there is one. -/
def decryptBody (key : Block) (a4 qc : Bool) (pn : Bytes) (p : Nat) (mem : Bytes)
    (index payloadLen : Nat) : Bytes :=
  let remainder := payloadLen % 16
  let numBlocks := payloadLen / 16
  let mem := decryptBlocks E key a4 qc pn p mem index numBlocks
  if 0 < remainder
  then decryptBlock E key a4 qc pn p mem (index + 16 * numBlocks) (numBlocks + 1) remainder
  else mem

/-- The loop of the MIC over the full blocks of the payload. -/
def micBlocks (key : Block) (mem : Bytes) (index : Nat) (aesOut : Block) : Nat → Block
  | 0 => aesOut
  | k + 1 => E key ((micBlocks key mem index aesOut k).xor (padded mem (index + 16 * k) 16))

/-- The MIC of the payload at `index`, after the three blocks of the header. -/
def micPayload (key : Block) (mem : Bytes) (index payloadLen : Nat) (aesOut : Block) : Block :=
  let remainder := payloadLen % 16
  let numBlocks := payloadLen / 16
  let aesOut := micBlocks E key mem index aesOut numBlocks
  if 0 < remainder then E key (aesOut.xor (padded mem (index + 16 * numBlocks) remainder))
  else aesOut

def frameMic (key : Block) (a4 qc : Bool) (pn : Bytes) (p headerLen payloadLen : Nat) (mem : Bytes) :
    Block :=
  let aesOut := E key (constructMicIv qc a4 (mem.at p) payloadLen pn)
  let aesOut := E key (aesOut.xor (constructMicHeader1 headerLen (mem.at p)))
  let aesOut := E key (aesOut.xor (constructMicHeader2 (mem.at p) a4 qc))
  micPayload E key mem (p + headerLen) payloadLen aesOut

/-- `RTMPSoftDecryptAES` of the frame at `p`: the verdict and the memory. -/
def rtmpSoftDecryptAes (mem : Bytes) (p : Nat) (dataByteCnt : BitVec 32) (key : CipherKey) :
    Bool × Bytes :=
  let a4 := a4Exists (mem.at p)
  let qc := qcExists (mem.at p)
  let headerLen := headerLen (mem.at p)
  if key.keyLen = 0 then (false, mem)
  else
    let pn := pnOf (mem.at (p + headerLen))
    let payloadLen := (dataByteCnt - ofNat 32 headerLen - 8 - 8).toNat
    let index := p + headerLen + 8
    let mem := decryptBody E key.key a4 qc pn p mem index payloadLen
    let trailMic := (E key.key (constructCtrPreload a4 qc (mem.at p) pn 0)).xor
      (padded mem (index + payloadLen) 8)
    -- the protected bit is forced on
    let mem : Bytes := update mem (p + 1) (mem (p + 1) ||| 0x40)
    (sameBytes (frameMic E key.key a4 qc pn p headerLen payloadLen mem) trailMic 8, mem)

end

/-! ## The blocks are the same -/

section

variable (hdr pn : Bytes)

theorem constructCtrPreload_eq {c : Nat} (hc : c < 256) :
    constructCtrPreload (a4Exists hdr) (qcExists hdr) hdr pn c = counterAt (counterOf hdr pn) c := by
  have hhi : c / 256 = 0 := div_eq_of_lt hc
  have hlo : c % 256 = c := mod_eq_of_lt hc
  funext i
  fin_cases i <;>
    simp [constructCtrPreload, counterAt, counterOf, formatCounter, nonceOf, qosByte,
      rtmpConstructCcmpNonce, bytesAt, Bytes.at, hhi, hlo, update]

theorem constructMicIv_eq {n : Nat} : constructMicIv (qcExists hdr) (a4Exists hdr) hdr n pn =
      formatControl (nonceOf hdr pn) (aadOf hdr) 8 n := by
  have hhi : n >>> 8 = n / 256 := shiftRight_eq_div_pow n 8
  have hlo : ofNat 8 (n % 256) = ofNat 8 n := by
    apply eq_of_toNat_eq
    simp
  have hnonce := nonceOf_length hdr pn
  have haad : aadOf hdr ≠ [] := by simp [aadOf, rtmpConstructCcmpAad]
  funext i
  fin_cases i <;>
    simp [constructMicIv, formatControl, hnonce, haad, hhi, hlo] <;>
    simp [nonceOf, qosByte, rtmpConstructCcmpNonce, bytesAt, Bytes.at]

theorem headerLen_bounds (hdr : Bytes) : 24 ≤ headerLen hdr ∧ headerLen hdr ≤ 32 := by
  unfold headerLen
  constructor
  · omega
  · split <;> split <;> omega

theorem aadOf_length : (aadOf hdr).length = headerLen hdr - 2 := by
  unfold aadOf rtmpConstructCcmpAad headerLen
  cases a4Exists hdr <;> cases qcExists hdr <;> simp [bytesAt]

/-- The header with the protected bit forced on. -/
def forced : Bytes := update hdr 1 (hdr 1 ||| 0x40)

theorem constructMicHeader1_eq (hdata : frameType hdr = btypeData) (hsub : hdr 0 &&& 0x40 = 0) :
    constructMicHeader1 (headerLen hdr) (forced hdr) =
      blockOfList (aadPrefix (aadOf hdr).length ++ (aadOf hdr).take 14) := by
  have hbyte0 : hdr 0 &&& 0xcf#8 = hdr 0 &&& 0x8f#8 := by
    generalize hdr 0 = x at hsub
    revert x
    decide +kernel
  have hbyte1 : (hdr 1 ||| 0x40#8) &&& 0xc7#8 = (hdr 1 &&& 0xc7#8) ||| 0x40#8 := by
    generalize hdr 1 = x
    revert x
    decide +kernel
  rw [aadOf_length]
  unfold aadOf rtmpConstructCcmpAad constructMicHeader1 blockOfList forced headerLen
  rw [hdata]
  funext i
  cases a4Exists hdr <;> cases qcExists hdr <;> fin_cases i <;>
    simp [aadPrefix, bytesAt, Bytes.at, update, hbyte0, hbyte1]

theorem constructMicHeader2_eq : constructMicHeader2 (forced hdr) (a4Exists hdr) (qcExists hdr) =
      blockOfList ((aadOf hdr).drop 14) := by
  unfold aadOf rtmpConstructCcmpAad constructMicHeader2 blockOfList forced
  funext i
  cases a4Exists hdr <;> cases qcExists hdr <;> fin_cases i <;>
    simp [bytesAt, Bytes.at, update]

theorem aadLoop_two (E : Block → Block → Block) (key : Block) {aad : List (BitVec 8)} (mac : Block)
    (hmin : 14 < aad.length) (hmax : aad.length ≤ 30) :
    aadLoop E key (aadPrefix aad.length) aad mac =
      cbcMac (E key) mac [blockOfList (aadPrefix aad.length ++ aad.take 14),
        blockOfList (aad.drop 14)] := by
  have hprefix : (aadPrefix aad.length).length = 2 := by
    rw [aadPrefix, if_pos ⟨by omega, by omega⟩]
    rfl
  have hne : ¬ (aad = [] ∨ 16 ≤ (aadPrefix aad.length).length) := by
    rintro (rfl | hlen)
    · cases hmin
    · omega
  have hrest : ¬ (aad.drop 14 = [] ∨ 16 ≤ ([] : List (BitVec 8)).length) := by
    rintro (hnil | hlen)
    · have := drop_eq_nil_iff.mp hnil
      omega
    · cases hlen
  have hfirst : min aad.length (16 - (aadPrefix aad.length).length) = 14 := by omega
  have hsecond : min (aad.drop 14).length (16 - ([] : List (BitVec 8)).length) =
      (aad.drop 14).length := by
    simp only [length_drop, length_nil]
    omega
  rw [aadLoop, dif_neg hne, hfirst, aadLoop, dif_neg hrest, hsecond]
  dsimp only
  rw [take_length, drop_length, nil_append, aadLoop, dif_pos (.inl rfl)]
  rfl

/-- **The MIC** of a frame, from the blocks that are built by hand. -/
theorem micOf_eq (E : Block → Block → Block) (key : Block) (payload : Bytes) (n : Nat)
    (hdata : frameType hdr = btypeData) (hsub : hdr 0 &&& 0x40 = 0) : micOf E hdr n pn key payload =
      cbcMac (E key) (E key (constructMicIv (qcExists hdr) (a4Exists hdr) hdr n pn))
        (constructMicHeader1 (headerLen hdr) (forced hdr) ::
          constructMicHeader2 (forced hdr) (a4Exists hdr) (qcExists hdr) :: dataBlocks payload n) := by
  have hlen := aadOf_length hdr
  have hbounds := headerLen_bounds hdr
  rw [micOf, aesCcmMac_eq, aadLoop_two E key _ (by omega) (by omega), ← cbcMac_append,
    constructMicIv_eq, constructMicHeader1_eq hdr hdata hsub, constructMicHeader2_eq]
  rfl

end

/-! ## What the function computes -/

section

variable (E : Block → Block → Block)

theorem qosByte_congr {hdr mpdu : Bytes} (h : ∀ i < headerLen hdr, i ≠ 1 → mpdu i = hdr i) :
    qosByte mpdu (a4Exists hdr) (qcExists hdr) = qosByte hdr (a4Exists hdr) (qcExists hdr) := by
  unfold headerLen at h
  unfold qosByte
  split
  · next hcond =>
    obtain ⟨hqc, ha4⟩ := Bool.and_eq_true_iff.mp hcond
    rw [h 30 (by simp [ha4, hqc]) (by decide)]
  · split
    · next hcond =>
      obtain ⟨hqc, ha4⟩ := Bool.and_eq_true_iff.mp hcond
      have hlen : 24 < 24 + (if a4Exists hdr then 6 else 0) + (if qcExists hdr then 2 else 0) := by
        rw [if_pos hqc]
        omega
      rw [h 24 hlen (by decide)]
    · rfl

theorem constructCtrPreload_congr {hdr mpdu : Bytes}
    (h : ∀ i < headerLen hdr, i ≠ 1 → mpdu i = hdr i) (pn : Bytes) (c : Nat) :
    constructCtrPreload (a4Exists hdr) (qcExists hdr) mpdu pn c =
      constructCtrPreload (a4Exists hdr) (qcExists hdr) hdr pn c := by
  have hbounds := headerLen_bounds hdr
  funext i
  unfold constructCtrPreload
  rw [qosByte_congr h]
  split
  · rfl
  · split
    · rfl
    · split
      · next hi =>
        have hlt : i.val < 8 := hi
        rw [h (i + 8) (by omega) (by omega)]
      · rfl

theorem constructMicIv_congr {hdr mpdu : Bytes} (h : ∀ i < headerLen hdr, i ≠ 1 → mpdu i = hdr i)
    (n : Nat) (pn : Bytes) : constructMicIv (qcExists hdr) (a4Exists hdr) mpdu n pn =
      constructMicIv (qcExists hdr) (a4Exists hdr) hdr n pn := by
  have hbounds := headerLen_bounds hdr
  funext i
  unfold constructMicIv
  rw [qosByte_congr h]
  split
  · rfl
  · split
    · rfl
    · split
      · next hi =>
        have hlt : i.val < 8 := hi
        rw [h (i + 8) (by omega) (by omega)]
      · rfl

theorem constructMicHeader1_congr {mpdu mpdu' : Bytes} (h : ∀ i < 24, mpdu i = mpdu' i)
    (headerLength : Nat) :
    constructMicHeader1 headerLength mpdu = constructMicHeader1 headerLength mpdu' := by
  funext i
  have hi := i.isLt
  unfold constructMicHeader1
  rw [h 0 (by decide), h 1 (by decide), h i (by omega)]

theorem constructMicHeader2_congr {hdr mpdu mpdu' : Bytes}
    (h : ∀ i < headerLen hdr, mpdu i = mpdu' i) :
    constructMicHeader2 mpdu (a4Exists hdr) (qcExists hdr) =
      constructMicHeader2 mpdu' (a4Exists hdr) (qcExists hdr) := by
  unfold headerLen at h
  unfold constructMicHeader2
  cases ha4 : a4Exists hdr <;> cases hqc : qcExists hdr <;>
  · simp only [ha4, hqc, if_true, if_false, Bool.false_eq_true] at h
    funext i
    fin_cases i <;> simp [h]

variable (mem : Bytes) (p : Nat) (key : Block) (pn : Bytes)

theorem xorStream_header (ks : Nat → BitVec 8) (h n : Nat) :
    ∀ i < h, i ≠ 1 → (xorStream ks mem (p + h) (p + h + 8) n).at p i = mem.at p i :=
  fun i hi _ => xorStream_of_lt (by omega)

/-- **One block** is decrypted. -/
theorem decryptBlock_eq {k n : Nat} (hk : k + 1 < 256) (hn : n ≤ 16) :
    let h := headerLen (mem.at p)
    let ks := ccmStream E key (counterOf (mem.at p) pn)
    decryptBlock E key (a4Exists (mem.at p)) (qcExists (mem.at p)) pn p
        (xorStream ks mem (p + h) (p + h + 8) (16 * k)) (p + h + 8 + 16 * k) (k + 1) n =
      xorStream ks mem (p + h) (p + h + 8) (16 * k + n) := by
  intro h ks
  have hctr := (constructCtrPreload_congr (xorStream_header mem p ks h (16 * k)) pn (k + 1)).trans
    (constructCtrPreload_eq (mem.at p) pn hk)
  have hks : ∀ i < n, E key (counterAt (counterOf (mem.at p) pn) (k + 1)) (Fin.ofNat 16 i) =
      ks (16 * k + i) := by
    intro i hi
    show _ = E key (counterAt _ ((16 * k + i) / 16 + 1)) (Fin.ofNat 16 (16 * k + i))
    rw [show (16 * k + i) / 16 = k by omega]
    congr 1
    exact Fin.ext (by simp [Fin.ofNat])
  unfold decryptBlock
  dsimp only
  rw [hctr, ← xorStream_extend (.inl (Nat.le_add_right (p + h) 8)),
    show p + h + 8 + 16 * k - 8 = p + h + 16 * k by omega]
  funext a
  rcases lt_or_ge a (p + h + 16 * k) with hlt | hge
  · rw [memcpy_of_lt hlt, xorStream_of_lt hlt]
  · obtain ⟨i, rfl⟩ := Nat.exists_eq_add_of_le hge
    rcases lt_or_ge i n with hi | hi
    · have hval : (Fin.ofNat 16 i).val = i := mod_eq_of_lt (by omega)
      rw [memcpy_add hi, xorStream_add hi, Block.xor, padded, hval, if_pos hi, hks i hi,
        BitVec.xor_comm]
    · rw [memcpy_of_ge (by omega), xorStream_of_ge (by omega : p + h + 16 * k ≤ _),
        xorStream_of_ge (by omega), xorStream_of_ge (by omega)]

theorem decryptBlocks_eq {k : Nat} (hk : k < 256) :
    let h := headerLen (mem.at p)
    decryptBlocks E key (a4Exists (mem.at p)) (qcExists (mem.at p)) pn p mem (p + h + 8) k =
      xorStream (ccmStream E key (counterOf (mem.at p) pn)) mem (p + h) (p + h + 8) (16 * k) := by
  intro h
  induction k with
  | zero => simp [decryptBlocks]
  | succ k ih =>
    rw [decryptBlocks, ih (by omega)]
    exact decryptBlock_eq E mem p key pn hk le_rfl

theorem micBlocks_eq (index : Nat) (aesOut : Block) {n k : Nat} (hk : 16 * k ≤ n) :
    micBlocks E key mem index aesOut k =
      cbcMac (E key) aesOut ((range k).map (padBlock (mem.at index) n)) := by
  induction k with
  | zero => rfl
  | succ k ih =>
    have hblock : padded mem (index + 16 * k) 16 = padBlock (mem.at index) n k := by
      funext i
      have hi := i.isLt
      rw [padded, padBlock, if_pos hi, if_pos (by omega), Bytes.at, Nat.add_assoc]
    rw [micBlocks, ih (by omega), hblock, range_succ, map_append, cbcMac_append,
      Block.xor_comm]
    rfl

theorem micPayload_eq (index : Nat) (aesOut : Block) (n : Nat) :
    micPayload E key mem index n aesOut = cbcMac (E key) aesOut (dataBlocks (mem.at index) n) := by
  unfold micPayload
  dsimp only
  rw [micBlocks_eq E mem key index aesOut (by omega : 16 * (n / 16) ≤ n), dataBlocks]
  split
  · next hpos =>
    have hblock : padded mem (index + 16 * (n / 16)) (n % 16) =
        padBlock (mem.at index) n (n / 16) := by
      funext i
      unfold padded padBlock
      by_cases hi : i.val < n % 16
      · rw [if_pos hi, if_pos (by omega), Bytes.at, Nat.add_assoc]
      · rw [if_neg hi, if_neg (by omega)]
    rw [show (n + 15) / 16 = n / 16 + 1 by omega, range_succ, map_append, cbcMac_append,
      hblock, Block.xor_comm]
    rfl
  · next hzero => rw [show (n + 15) / 16 = n / 16 by omega]

theorem decryptBody_eq {n : Nat} (hn : n ≤ 4080) :
    decryptBody E key (a4Exists (mem.at p)) (qcExists (mem.at p)) pn p mem
        (p + headerLen (mem.at p) + 8) n =
      xorStream (ccmStream E key (counterOf (mem.at p) pn)) mem (p + headerLen (mem.at p))
        (p + headerLen (mem.at p) + 8) n := by
  have hsum : 16 * (n / 16) + n % 16 = n := div_add_mod n 16
  unfold decryptBody
  dsimp only
  rw [decryptBlocks_eq E mem p key pn (by omega : n / 16 < 256)]
  split
  · next hpos =>
    rw [decryptBlock_eq E mem p key pn (by omega) (mod_lt n (by decide)).le, hsum]
  · next hzero => rw [show 16 * (n / 16) = n by omega]

theorem sameBytes_comm (a b : Block) (n : Nat) : sameBytes a b n = sameBytes b a n := by
  simp only [sameBytes, eq_comm]

theorem frameMic_eq {hdr mem' : Bytes} {n : Nat} (hdata : frameType hdr = btypeData)
    (hsub : hdr 0 &&& 0x40 = 0) (hhdr : ∀ i < headerLen hdr, mem'.at p i = forced hdr i) :
    frameMic E key (a4Exists hdr) (qcExists hdr) pn p (headerLen hdr) n mem' =
      micOf E hdr n pn key (mem'.at (p + headerLen hdr)) := by
  have hsame : ∀ i < headerLen hdr, i ≠ 1 → mem'.at p i = hdr i := by
    intro i hi hne
    rw [hhdr i hi, forced, update_of_ne hne]
  have hbounds := headerLen_bounds hdr
  unfold frameMic
  dsimp only
  rw [micPayload_eq, micOf_eq hdr pn E key _ n hdata hsub, constructMicIv_congr hsame,
    constructMicHeader1_congr fun i hi => hhdr i (by omega), constructMicHeader2_congr hhdr,
    cbcMac_cons, cbcMac_cons, Block.xor_comm (constructMicHeader1 _ _),
    Block.xor_comm (constructMicHeader2 _ _ _)]

/-- Memory after the frame has been decrypted. -/
def framePlain (n : Nat) : Bytes := plainMem E (mem.at p) n key mem (p + headerLen (mem.at p))

/-- And after the protected bit has been forced on. -/
def frameForced (n : Nat) : Bytes :=
  update (framePlain E mem p key n) (p + 1) (mem (p + 1) ||| 0x40)

theorem framePlain_header {n i : Nat} (hi : i < headerLen (mem.at p)) :
    framePlain E mem p key n (p + i) = mem (p + i) := xorStream_of_lt (by omega)

theorem frameForced_header {n i : Nat} (hi : i < headerLen (mem.at p)) :
    (frameForced E mem p key n).at p i = forced (mem.at p) i := by
  by_cases h1 : i = 1
  · rw [h1, Bytes.at, frameForced, forced, update_self, update_self]
    rfl
  · rw [Bytes.at, frameForced, forced, update_of_ne (by omega), update_of_ne h1,
      framePlain_header E mem p key hi]
    rfl

theorem frameForced_payload (n i : Nat) : frameForced E mem p key n (p + headerLen (mem.at p) + i) =
      framePlain E mem p key n (p + headerLen (mem.at p) + i) := by
  have hbounds := headerLen_bounds (mem.at p)
  exact update_of_ne (by omega) _ _

theorem trailMic_eq {n : Nat} (i : Fin 16) (hi : i.val < 8) :
    (E key (constructCtrPreload (a4Exists (mem.at p)) (qcExists (mem.at p))
        ((framePlain E mem p key n).at p) (pnOf (mem.at (p + headerLen (mem.at p)))) 0)).xor
        (padded (framePlain E mem p key n) (p + headerLen (mem.at p) + 8 + n) 8) i =
      sentMic E (mem.at p) n key mem (p + headerLen (mem.at p)) i := by
  have hbyte : framePlain E mem p key n (p + headerLen (mem.at p) + 8 + n + i) =
      mem (p + headerLen (mem.at p) + 8 + n + i) := xorStream_of_ge (by omega)
  have hhdr : ∀ j < headerLen (mem.at p), j ≠ 1 →
      (framePlain E mem p key n).at p j = mem.at p j :=
    fun j hj _ => framePlain_header E mem p key hj
  have hctr := constructCtrPreload_congr hhdr (pnOf (mem.at (p + headerLen (mem.at p)))) 0
  rw [hctr, constructCtrPreload_eq (mem.at p) _ (by decide), counterAt_zero, Block.xor, padded,
    if_pos hi, hbyte, BitVec.xor_comm]
  rfl

/-- **`RTMPSoftDecryptAES`** on a data frame with a payload of `n` bytes. -/
theorem rtmpSoftDecryptAes_eq (ckey : CipherKey) (hkey : ckey.keyLen ≠ 0) {n : Nat} (hn : n ≤ 4080)
    (hdata : frameType (mem.at p) = btypeData) (hsub : mem.at p 0 &&& 0x40 = 0) :
    rtmpSoftDecryptAes E mem p (ofNat 32 (headerLen (mem.at p) + 16 + n)) ckey =
      (micMatches E (mem.at p) n ckey.key mem (p + headerLen (mem.at p)),
        frameForced E mem p ckey.key n) := by
  have hbounds := headerLen_bounds (mem.at p)
  have hlen : (ofNat 32 (headerLen (mem.at p) + 16 + n) -
      ofNat 32 (headerLen (mem.at p)) - 8 - 8).toNat = n := by
    simp only [toNat_sub, toNat_ofNat, reduceToNat]
    omega
  have hplain : decryptBody E ckey.key (a4Exists (mem.at p)) (qcExists (mem.at p))
      (pnOf (mem.at (p + headerLen (mem.at p)))) p mem (p + headerLen (mem.at p) + 8) n =
      framePlain E mem p ckey.key n := decryptBody_eq E mem p ckey.key _ hn
  have hforced : update (framePlain E mem p ckey.key n) (p + 1)
      (framePlain E mem p ckey.key n (p + 1) ||| 0x40) = frameForced E mem p ckey.key n := by
    rw [frameForced, framePlain_header E mem p ckey.key (by omega)]
  have hmic := frameMic_eq E p ckey.key (pnOf (mem.at (p + headerLen (mem.at p)))) (n := n) hdata
    hsub fun i hi => frameForced_header E mem p ckey.key (n := n) hi
  have hpayload : ∀ i < n, (frameForced E mem p ckey.key n).at (p + headerLen (mem.at p)) i =
      (framePlain E mem p ckey.key n).at (p + headerLen (mem.at p)) i :=
    fun i _ => frameForced_payload E mem p ckey.key n i
  unfold rtmpSoftDecryptAes
  dsimp only
  rw [if_neg hkey, hlen, hplain, hforced, hmic, sameBytes_comm,
    sameBytes_congr (trailMic_eq E mem p ckey.key) (fun _ _ => rfl), micOf, aesCcmMac_congr E hpayload]
  rfl

end

/-- **The two decryptors agree**: on every data frame with bit 6 of the subtype clear and a
    payload of up to 4080 bytes they give the same verdict, and on success they leave the same
    plain text behind the header. -/
theorem soft_decryptors_agree (E : Block → Block → Block) (mem : Bytes) (p : Nat) (key : CipherKey)
    (n : Nat) (hdata : frameType (mem.at p) = btypeData) (hsub : mem.at p 0 &&& 0x40 = 0)
    (hn : n ≤ 4080) :
    let h := headerLen (mem.at p)
    let aes := rtmpSoftDecryptAes E mem p (BitVec.ofNat 32 (h + 16 + n)) key
    let ccmp := rtmpSoftDecryptCcmp E (mem.at p) key mem (p + h) (BitVec.ofNat 16 (n + 16))
    aes.1 = ccmp.1 ∧ (aes.1 = true → ccmp.2.2 = BitVec.ofNat 16 n ∧
      ∀ i < n, aes.2 (p + h + i) = ccmp.2.1 (p + h + i)) := by
  dsimp only
  by_cases hkey : key.keyLen = 0
  · -- neither of them decrypts without a key
    rw [rtmpSoftDecryptAes, rtmpSoftDecryptCcmp, if_pos hkey, if_pos hkey]
    exact ⟨rfl, fun h => absurd h Bool.false_ne_true⟩
  · rw [rtmpSoftDecryptAes_eq E mem p key hkey hn hdata hsub,
      rtmpSoftDecryptCcmp_eq E (mem.at p) mem n key hkey _ (by omega)]
    refine ⟨rfl, fun hmatch => ⟨?_, fun i _ => frameForced_payload E mem p key.key n i⟩⟩
    exact congrArg (BitVec.ofNat 16) (if_pos hmatch)

/-- A frame: the header of the test vector, and a body of zeros. -/
def testFrame : Bytes := fun i => if i < 24 then testHdr i else 0

theorem soft_decryptors_agree_test_frame :
    let h := headerLen (testFrame.at 0)
    let aes := rtmpSoftDecryptAes Block.xor testFrame 0 (BitVec.ofNat 32 (h + 16 + 20)) ⟨testKey, 16⟩
    let ccmp := rtmpSoftDecryptCcmp Block.xor (testFrame.at 0) ⟨testKey, 16⟩ testFrame (0 + h)
      (BitVec.ofNat 16 (20 + 16))
    frameType (testFrame.at 0) = btypeData ∧ testFrame.at 0 0 &&& 0x40 = 0 ∧ aes.1 = ccmp.1 ∧
      (aes.1 = true → ccmp.2.2 = BitVec.ofNat 16 20 ∧
        ∀ i < 20, aes.2 (0 + h + i) = ccmp.2.1 (0 + h + i)) :=
  have hdata : frameType (testFrame.at 0) = btypeData := by decide +kernel
  have hsub : testFrame.at 0 0 &&& 0x40 = 0 := by decide +kernel
  ⟨hdata, hsub, soft_decryptors_agree Block.xor testFrame 0 ⟨testKey, 16⟩ 20 hdata hsub (by decide)⟩

end RalinkSdk.Ccmp
