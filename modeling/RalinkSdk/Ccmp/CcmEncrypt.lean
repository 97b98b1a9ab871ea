import RalinkSdk.Lib.Ccm
import RalinkSdk.Ccmp.AesCcm
import RalinkSdk.Crypt.AesBlock

/-!
# AES-CCM and its definition

`AES_CCM_Encrypt` beside the mode it implements.  The header of the chain, the padding and the
short form of the length of the authenticated data are those of the mode.  The counter is one byte
wide, and the long form of the length lacks its mark.
-/

namespace RalinkSdk.Ccmp

open Lib List Function Nat
open Fin (ofNat ext)

/-! ## Headers -/

section

variable {nonce aad : List (BitVec 8)} {macLength n : Nat}

theorem formatControl_of_lt {i : Nat} (hi : i < 11) :
    formatControl nonce aad macLength n (ofNat 16 (i + 1)) = nonce.getD i 0 := by
  interval_cases i <;> rfl

theorem formatControl_tail (hn : n < 256 ^ 4) {i : Nat} (hpos : 0 < i) (hi : nonce.length < i)
    (hlt : i < 16) : formatControl nonce aad macLength n (ofNat 16 i) =
      BitVec.ofNat 8 (n / 256 ^ (15 - i)) := by
  rcases lt_or_ge i 12 with hlow | hhigh
  · obtain ⟨j, rfl⟩ := exists_eq_add_one.mpr hpos
    -- no byte is written here, and the length has no digit
    have hdigit : n / 256 ^ (15 - (j + 1)) = 0 :=
      div_eq_of_lt (hn.trans_le (Nat.pow_le_pow_right (by decide) (by omega)))
    rw [formatControl_of_lt (by omega), hdigit]
    exact getD_eq_default _ _ (Nat.lt_succ_iff.mp hi)
  · interval_cases i <;> simp [formatControl, hi, shiftRight_eq_div_pow]

theorem formatControl_nonce (hnonce : nonce.length ≤ 13) {i : Nat} (hi : i < nonce.length) :
    formatControl nonce aad macLength n (ofNat 16 (i + 1)) = nonce.getD i 0 := by
  rcases lt_or_ge i 11 with hlow | hhigh
  · exact formatControl_of_lt hlow
  · have hlt : i < 13 := hi.trans_le hnonce
    interval_cases i
    · have hlen : ¬nonce.length < 12 := by omega
      simp [formatControl, hlen]
    · have hlen : ¬nonce.length < 13 := by omega
      simp [formatControl, hlen]

theorem formatControl_flags (hnonce : 7 ≤ nonce.length) (hnonce' : nonce.length ≤ 13)
    (hmac : macLength ∈ macLengths) : formatControl nonce aad macLength n 0 =
      BitVec.ofNat 8 ((if aad = [] then 0 else 64) + 8 * ((macLength - 2) / 2) +
        (Ccm.lengthSize nonce - 1)) := by
  -- there are few lengths, so that all of them can be tried
  have hflags : ∀ m ∈ macLengths, ∀ l < 14, 7 ≤ l → ∀ any : Bool,
      (if any then 0 else 0x40) ||| BitVec.ofNat 8 (((m - 2) >>> 1) <<< 3) |||
        BitVec.ofNat 8 (15 - l - 1) =
      BitVec.ofNat 8 ((if any then 0 else 64) + 8 * ((m - 2) / 2) + (15 - l - 1)) := by decide
  have hat := hflags macLength hmac nonce.length (by omega) hnonce (decide (aad = []))
  simp only [decide_eq_true_eq] at hat
  exact hat

/-- **The first block** is the control block of the mode. -/
theorem formatControl_eq (hnonce : 7 ≤ nonce.length) (hnonce' : nonce.length ≤ 13)
    (hmac : macLength ∈ macLengths) (hn : n < 256 ^ 4) :
    formatControl nonce aad macLength n = Ccm.controlBlock nonce aad macLength n := by
  funext i
  obtain ⟨i, hi⟩ := i
  have hfin : (⟨i, hi⟩ : Fin 16) = ofNat 16 i := ext (mod_eq_of_lt hi).symm
  rw [hfin]
  rcases Nat.eq_zero_or_pos i with rfl | hpos
  · exact formatControl_flags hnonce hnonce' hmac
  -- behind the nonce stands the length of the text
  rcases lt_or_ge nonce.length i with htail | hin
  · rw [formatControl_tail hn hpos htail hi, Ccm.controlBlock,
      Ccm.header_getD nonce _ (by omega) n htail hi]
  · obtain ⟨j, rfl⟩ := exists_eq_add_one.mpr hpos
    rw [formatControl_nonce hnonce' hin, Ccm.controlBlock, Ccm.header_getD_nonce nonce _ _ hin hi]

theorem formatCounter_succ {j : Nat} (hj : j < 15) :
    formatCounter nonce (ofNat 16 (j + 1)) = nonce.getD j 0 := by
  interval_cases j <;> rfl

theorem counterAt_of_lt (ctr : Block) (k : Nat) {i : Nat} (hi : i < 15) :
    counterAt ctr k (ofNat 16 i) = ctr (ofNat 16 i) := by
  apply update_of_ne
  interval_cases i <;> decide

/-- **The counter** is that of the mode until its last byte overflows. -/
theorem counterAt_formatCounter (hnonce : nonce.length ≤ 13) {k : Nat} (hk : k < 256) :
    counterAt (formatCounter nonce) k = Ccm.counterBlock nonce k := by
  funext i
  obtain ⟨i, hi⟩ := i
  have hfin : (⟨i, hi⟩ : Fin 16) = ofNat 16 i := ext (mod_eq_of_lt hi).symm
  rw [hfin]
  rcases Nat.eq_zero_or_pos i with rfl | hpos
  · rfl
  obtain ⟨j, rfl⟩ := exists_eq_add_one.mpr hpos
  rcases lt_or_ge nonce.length (j + 1) with htail | hin
  · have hnone : nonce.getD j 0 = 0 := getD_eq_default _ _ (Nat.lt_succ_iff.mp htail)
    rw [Ccm.counterBlock, Ccm.header_getD nonce _ (by omega) k htail hi]
    -- in front of the last byte the counter of the mode is 0 as well
    rcases Nat.lt_succ_iff_lt_or_eq.mp hi with hlow | hlast
    · have hdigit : k / 256 ^ (15 - (j + 1)) = 0 := div_eq_of_lt
        (hk.trans_le (Nat.le_self_pow (by omega) 256))
      rw [counterAt_of_lt _ _ hlow, formatCounter_succ (by omega), hnone, hdigit]
      rfl
    · obtain rfl : j = 14 := by omega
      have hlast : counterAt (formatCounter nonce) k (ofNat 16 (14 + 1)) =
          formatCounter nonce (ofNat 16 (14 + 1)) + BitVec.ofNat 8 k :=
        update_self ..
      rw [hlast, formatCounter_succ (by decide), hnone, BitVec.ofNat_eq_ofNat, BitVec.zero_add,
        Nat.sub_self, pow_zero, Nat.div_one]
  · rw [counterAt_of_lt _ _ (by omega), formatCounter_succ (by omega), Ccm.counterBlock,
      Ccm.header_getD_nonce nonce _ _ hin hi]

end

/-! ## The chain -/

section

variable (E : Block → Block → Block) (key : Block)

/-- **The authenticated data** go into the chain in padded blocks, behind what stands at the start
    of the first one. -/
theorem aadLoop_eq (start aad : List (BitVec 8)) (hstart : start.length < 16)
    (h : aad = [] → start = []) (mac : Block) :
    aadLoop E key start aad mac = cbcMac (E key) mac (Ccm.textBlocks (start ++ aad)) := by
  induction hk : aad.length using Nat.strong_induction_on generalizing start aad mac with
  | _ k ih =>
    rw [aadLoop]
    by_cases hnil : aad = []
    · rw [dif_pos (.inl hnil), hnil, h hnil, append_nil, Ccm.textBlocks_nil, cbcMac_nil]
    · have hpos := length_pos_iff.mpr hnil
      have hrun : ¬(aad = [] ∨ 16 ≤ start.length) := by
        rintro (h | h)
        · exact hnil h
        · omega
      have hne : start ++ aad ≠ [] := fun h => hnil (append_eq_nil_iff.mp h).2
      rw [dif_neg hrun, Ccm.textBlocks_of_ne_nil hne, cbcMac_cons]
      dsimp only
      -- the first block takes what fits behind the start; the next one starts empty
      have htake : start ++ aad.take (min aad.length (16 - start.length)) =
          (start ++ aad).take 16 := by
        rw [take_append, take_of_length_le hstart.le, take_eq_take_iff.mpr]
        omega
      have hdrop : aad.drop (min aad.length (16 - start.length)) = (start ++ aad).drop 16 := by
        rw [drop_append, drop_eq_nil_of_le hstart.le, nil_append]
        rcases le_total aad.length (16 - start.length) with hle | hge
        · rw [min_eq_left hle, drop_eq_nil_of_le le_rfl, drop_eq_nil_of_le hle]
        · rw [min_eq_right hge]
      rw [htake, hdrop]
      have hlen : ((start ++ aad).drop 16).length < k := by
        rw [length_drop, length_append]
        omega
      exact ih _ hlen [] _ (by decide) (fun _ => rfl) _ rfl

theorem aadPrefix_eq {n : Nat} (hpos : 0 < n) (hn : n < 0xff00) :
    aadPrefix n = Ccm.aadLength n := by
  rw [aadPrefix, if_pos ⟨hpos, hn⟩, Ccm.aadLength, if_pos (by omega)]
  simp [Ccm.beBytes, shiftRight_eq_div_pow]

theorem aadPrefix_of_ge {n : Nat} (hn : 0xff00 ≤ n) : aadPrefix n = 0 :: 0 :: Ccm.beBytes 4 n := by
  rw [aadPrefix, if_neg fun h => by omega]
  simp [Ccm.beBytes, shiftRight_eq_div_pow]

theorem aadLength_of_ge {n : Nat} (hn : 0xff00 ≤ n) (hlt : n < 2 ^ 32) :
    Ccm.aadLength n = 0xff :: 0xfe :: Ccm.beBytes 4 n := by
  rw [Ccm.aadLength, if_neg (by omega), if_pos hlt]

theorem length_aadPrefix_lt (n : Nat) : (aadPrefix n).length < 16 := by
  unfold aadPrefix
  split <;> simp

theorem textBlocks_read (mem : Bytes) (p n : Nat) :
    Ccm.textBlocks (mem.read p n) = dataBlocks (mem.at p) n := by
  rw [Ccm.textBlocks, length_read]
  apply dataBlocks_congr
  intro i hi
  rw [getD_eq_getElem _ _ (by rwa [length_read]), getElem_read]
  rfl

variable {nonce aad : List (BitVec 8)} {macLength : Nat}

theorem aesCcmMac_eq_chain (hnonce : 7 ≤ nonce.length) (hnonce' : nonce.length ≤ 13)
    (hmac : macLength ∈ macLengths) (mem : Bytes) (p : Nat) {n : Nat} (hn : n < 256 ^ 4) :
    aesCcmMac E (mem.at p) n key nonce aad macLength =
      cbcMac (E key) (E key (Ccm.controlBlock nonce aad macLength n))
        (Ccm.textBlocks (if aad = [] then [] else aadPrefix aad.length ++ aad) ++
          Ccm.textBlocks (mem.read p n)) := by
  rw [aesCcmMac_eq, formatControl_eq hnonce hnonce' hmac hn, cbcMac_append, textBlocks_read]
  congr 1
  by_cases hnil : aad = []
  · rw [if_pos hnil, aadLoop, dif_pos (.inl hnil), Ccm.textBlocks_nil, cbcMac_nil]
  · rw [if_neg hnil]
    exact aadLoop_eq E key _ _ (length_aadPrefix_lt _) (fun h => absurd h hnil) _

/-- **The MAC** is that of the mode while the authenticated data are short. -/
theorem aesCcmMac_eq_mac (hnonce : 7 ≤ nonce.length) (hnonce' : nonce.length ≤ 13)
    (hmac : macLength ∈ macLengths) (mem : Bytes) (p : Nat) {n : Nat} (hn : n < 256 ^ 4)
    (haad : aad.length < 0xff00) : aesCcmMac E (mem.at p) n key nonce aad macLength =
      Ccm.mac nonce aad (E key) macLength (mem.read p n) := by
  have htext : (if aad = [] then [] else aadPrefix aad.length ++ aad) = Ccm.aadText aad := by
    unfold Ccm.aadText
    by_cases hnil : aad = []
    · rw [if_pos hnil, if_pos hnil]
    · rw [if_neg hnil, if_neg hnil, aadPrefix_eq (length_pos_iff.mpr hnil) haad]
  rw [aesCcmMac_eq_chain E key hnonce hnonce' hmac mem p hn, htext, Ccm.mac, length_read]

end

/-! ## The cipher text -/

theorem iterate_nextCounter (ctr : Block) (k : Nat) : nextCounter^[k] ctr = counterAt ctr k := by
  induction k with
  | zero => exact (counterAt_zero ctr).symm
  | succ k ih => rw [Function.iterate_succ_apply', ih, nextCounter_counterAt]

theorem counterAt_add_256 (ctr : Block) (k : Nat) : counterAt ctr (k + 256) = counterAt ctr k := by
  rw [counterAt, counterAt, BitVec.ofNat_add, show BitVec.ofNat 8 256 = 0#8 from rfl,
    BitVec.add_zero]

/-- The values that `AES_CCM_Encrypt` accepts. -/
structure Accepted (plainLength : BitVec 32) (keyLength : Nat) (nonce : List (BitVec 8))
    (macLength : Nat) (cipherLength : BitVec 32) : Prop where
  key : keyLength = 16
  nonce_ge : 7 ≤ nonce.length
  nonce_le : nonce.length ≤ 13
  mac : macLength ∈ macLengths
  room : plainLength + BitVec.ofNat 32 macLength ≤ cipherLength

section

variable (E : Block → Block → Block) {mem : Bytes} {plain cipher : Nat}
  {plainLength cipherLength : BitVec 32} {key : Block} {keyLength : Nat}
  {nonce aad : List (BitVec 8)} {macLength : Nat}

theorem aesCcmEncrypt_run (hacc : Accepted plainLength keyLength nonce macLength cipherLength)
    (hsep : cipher ≤ plain ∨ plain + plainLength.toNat ≤ cipher) :
    aesCcmEncrypt E mem plain plainLength key keyLength nonce aad macLength cipher cipherLength =
      (0, memcpy (xorStream (ccmStream E key (formatCounter nonce)) mem cipher plain
            plainLength.toNat) (cipher + plainLength.toNat)
          (fun i => (aesCcmMac E (mem.at plain) plainLength.toNat key nonce aad macLength).xor
            (E key (formatCounter nonce)) (ofNat 16 i)) macLength,
        plainLength + BitVec.ofNat 32 macLength) := by
  have hnonce : ¬(nonce.length < 7 ∨ 13 < nonce.length) := by
    rintro (h | h)
    · exact absurd h (Nat.not_lt.mpr hacc.nonce_ge)
    · exact absurd h (Nat.not_lt.mpr hacc.nonce_le)
  unfold aesCcmEncrypt
  rw [if_neg (not_not.mpr hacc.key), if_neg hnonce, if_neg (not_not.mpr hacc.mac),
    if_neg (BitVec.not_lt.mpr hacc.room)]
  dsimp only
  rw [cipherLoop_eq E key _ hsep]

/-- The result of a call is that of the mode. -/
def IsCcm (mem : Bytes) (plain : Nat) (plainLength : BitVec 32) (key : Block) (keyLength : Nat)
    (nonce aad : List (BitVec 8)) (macLength cipher : Nat) (cipherLength : BitVec 32) : Prop :=
  aesCcmEncrypt E mem plain plainLength key keyLength nonce aad macLength cipher cipherLength =
    (0, mem.write cipher
        (Ccm.encrypt nonce aad (E key) macLength (mem.read plain plainLength.toNat)),
      plainLength + BitVec.ofNat 32 macLength)

/-- The counters of different blocks of the plain text are different. -/
def CountersDistinct (nonce : List (BitVec 8)) (plainLength : Nat) : Prop :=
  ∀ i j, 16 * i < plainLength → 16 * j < plainLength →
    nextCounter^[i + 1] (formatCounter nonce) = nextCounter^[j + 1] (formatCounter nonce) → i = j

variable {E}

theorem IsCcm.bytes
    (h : IsCcm E mem plain plainLength key keyLength nonce aad macLength cipher cipherLength)
    (hacc : Accepted plainLength keyLength nonce macLength cipherLength)
    (hsep : cipher ≤ plain ∨ plain + plainLength.toNat ≤ cipher) :
    (∀ i < plainLength.toNat, ccmStream E key (formatCounter nonce) i =
        keystream (E key) (Ccm.counterBlock nonce) i) ∧
      ∀ i < macLength,
        aesCcmMac E (mem.at plain) plainLength.toNat key nonce aad macLength (ofNat 16 i) =
          Ccm.mac nonce aad (E key) macLength (mem.read plain plainLength.toNat)
            (ofNat 16 i) := by
  rw [IsCcm, aesCcmEncrypt_run E hacc hsep, Ccm.write_encrypt] at h
  have hmem := congrFun (congrArg (fun r => r.2.1) h)
  refine ⟨fun i hi => ?_, fun i hi => ?_⟩
  -- the text itself cancels
  · have hat := hmem (cipher + i)
    dsimp only at hat
    rw [memcpy_of_lt (by omega), memcpy_of_lt (by omega), xorStream_add hi, xorStream_add hi] at hat
    exact (BitVec.xor_right_inj _).mp hat
  -- and so does the first counter block in the tag
  · have hat := hmem (cipher + plainLength.toNat + i)
    dsimp only at hat
    rw [memcpy_add hi, memcpy_add hi, Block.xor, Block.xor,
      ← counterAt_formatCounter hacc.nonce_le (by decide : 0 < 256), counterAt_zero] at hat
    exact (BitVec.xor_left_inj _).mp hat

theorem isCcm_of_le (hacc : Accepted plainLength keyLength nonce macLength cipherLength)
    (hsep : cipher ≤ plain ∨ plain + plainLength.toNat ≤ cipher)
    (hplain : plainLength.toNat ≤ 4080) (haad : aad.length < 0xff00) :
    IsCcm E mem plain plainLength key keyLength nonce aad macLength cipher cipherLength := by
  have hstream : ∀ i < plainLength.toNat, ccmStream E key (formatCounter nonce) i =
      keystream (E key) (Ccm.counterBlock nonce) i := fun i hi => by
    rw [ccmStream, keystream, keystream, counterAt_formatCounter hacc.nonce_le (by omega)]
  have hctr := counterAt_formatCounter (k := 0) hacc.nonce_le (by decide)
  rw [counterAt_zero] at hctr
  rw [IsCcm, aesCcmEncrypt_run E hacc hsep, Ccm.write_encrypt, xorStream_congr hstream,
    aesCcmMac_eq_mac E key hacc.nonce_ge hacc.nonce_le hacc.mac mem plain (by omega) haad, hctr]

theorem countersDistinct_of_le (hnonce : nonce.length ≤ 13) {n : Nat} (hn : n ≤ 4080) :
    CountersDistinct nonce n := by
  intro i j hi hj h
  rw [iterate_nextCounter, iterate_nextCounter, counterAt_formatCounter hnonce (by omega),
    counterAt_formatCounter hnonce (by omega)] at h
  have hroom : 256 ≤ 256 ^ Ccm.lengthSize nonce :=
    Nat.le_self_pow (by rw [Ccm.lengthSize]; omega) 256
  have heq := Ccm.counterBlock_injective nonce (by omega) (by omega) (by omega) h
  omega

theorem counterBlock_256_ne (hnonce : nonce.length ≤ 13) :
    Ccm.counterBlock nonce 256 ≠ Ccm.counterBlock nonce 0 := by
  intro h
  have hroom : 256 ^ 2 ≤ 256 ^ Ccm.lengthSize nonce :=
    Nat.pow_le_pow_right (by decide) (by rw [Ccm.lengthSize]; omega)
  have heq := Ccm.counterBlock_injective nonce (by omega) (by omega) (by omega) h
  exact absurd heq (by decide)

theorem keystream_block_256 (f : Block → Block) (ctr : Nat → Block) {i : Nat} (hi : i < 16) :
    keystream f ctr (4080 + i) = f (ctr 256) (ofNat 16 i) := by
  have hindex : ofNat 16 (4080 + i) = ofNat 16 i := ext (mul_add_mod 16 255 i)
  rw [keystream, show (4080 + i) / 16 + 1 = 256 by omega, hindex]

theorem ccmStream_block_256 (hnonce : nonce.length ≤ 13) {i : Nat} (hi : i < 16) :
    ccmStream E key (formatCounter nonce) (4080 + i) =
      E key (Ccm.counterBlock nonce 0) (ofNat 16 i) := by
  rw [ccmStream, keystream_block_256 _ _ hi, show 256 = 0 + 256 from rfl, counterAt_add_256,
    counterAt_formatCounter hnonce (by decide)]

/-- **A text of 256 blocks**: no cipher gives the text of the mode. -/
theorem not_isCcm_of_injective (hacc : Accepted plainLength keyLength nonce macLength cipherLength)
    (hsep : cipher ≤ plain ∨ plain + plainLength.toNat ≤ cipher)
    (hplain : 4096 ≤ plainLength.toNat) (hE : Injective (E key)) :
    ¬IsCcm E mem plain plainLength key keyLength nonce aad macLength cipher cipherLength := by
  intro h
  have htext := (h.bytes hacc hsep).1
  have hblock : E key (Ccm.counterBlock nonce 0) = E key (Ccm.counterBlock nonce 256) := by
    funext i
    have hi := i.isLt
    have hat := htext (4080 + i) (by omega)
    rw [ccmStream_block_256 hacc.nonce_le hi, keystream_block_256 _ _ hi] at hat
    rwa [show ofNat 16 i.val = i from ext (mod_eq_of_lt hi)] at hat
  exact counterBlock_256_ne hacc.nonce_le (hE hblock).symm

/-- A block that differs from the first counter in its first byte. -/
def otherBlock (nonce : List (BitVec 8)) : Block :=
  update (Ccm.counterBlock nonce 0) 0 (Ccm.counterBlock nonce 0 0 + 1)

theorem swap_counterBlock_ne (hnonce : nonce.length ≤ 13) :
    Equiv.swap (Ccm.counterBlock nonce 0) (otherBlock nonce) (Ccm.counterBlock nonce 0) 0 ≠
      Equiv.swap (Ccm.counterBlock nonce 0) (otherBlock nonce) (Ccm.counterBlock nonce 256) 0 := by
  have hfirst : Ccm.counterBlock nonce 256 0 = Ccm.counterBlock nonce 0 0 := rfl
  have hother : otherBlock nonce 0 = Ccm.counterBlock nonce 0 0 + 1 := update_self ..
  have hne : Ccm.counterBlock nonce 0 0 + 1 ≠ Ccm.counterBlock nonce 0 0 := by
    generalize Ccm.counterBlock nonce 0 0 = b
    revert b
    decide
  have hfix : Ccm.counterBlock nonce 256 ≠ otherBlock nonce := fun h =>
    hne (hother ▸ hfirst ▸ (congrFun h 0).symm)
  rw [Equiv.swap_apply_left, Equiv.swap_apply_of_ne_of_ne (counterBlock_256_ne hnonce) hfix, hfirst,
    hother]
  exact hne

theorem cbcMac_id_byte {mac mac' : Block} (blocks : List Block) {i : Fin 16}
    (h : cbcMac id mac blocks i = cbcMac id mac' blocks i) : mac i = mac' i := by
  induction blocks generalizing mac mac' with
  | nil => exact h
  | cons block blocks ih =>
    rw [cbcMac_cons, cbcMac_cons] at h
    exact (BitVec.xor_right_inj _).mp (ih h)

/-- **Long authenticated data**: the tags differ if nothing is encrypted. -/
theorem aesCcmMac_ne_mac (hnonce : 7 ≤ nonce.length) (hnonce' : nonce.length ≤ 13)
    (hmac : macLength ∈ macLengths) (mem : Bytes) (p : Nat) {n : Nat} (hn : n < 256 ^ 4)
    (haad : 0xff00 ≤ aad.length) (hlt : aad.length < 2 ^ 32) :
    aesCcmMac (fun _ => id) (mem.at p) n key nonce aad macLength 0 ≠
      Ccm.mac nonce aad id macLength (mem.read p n) 0 := by
  have hne : aad ≠ [] := ne_nil_of_length_pos (by omega)
  intro h
  rw [aesCcmMac_eq_chain (fun _ => id) key hnonce hnonce' hmac mem p hn, Ccm.mac, length_read,
    Ccm.aadText, if_neg hne, if_neg hne, aadPrefix_of_ge haad, aadLength_of_ge haad hlt,
    cbcMac_append, cbcMac_append] at h
  have hchain := cbcMac_id_byte _ h
  have hcons : ∀ a b : BitVec 8, Ccm.textBlocks (a :: b :: Ccm.beBytes 4 aad.length ++ aad) =
      Ccm.blockOf ((a :: b :: Ccm.beBytes 4 aad.length ++ aad).take 16) ::
        Ccm.textBlocks ((Ccm.beBytes 4 aad.length ++ aad).drop 14) := fun a b =>
    Ccm.textBlocks_of_ne_nil (cons_ne_nil _ _)
  -- the blocks behind the first one are the same, and the first ones differ in the mark
  rw [hcons, hcons, cbcMac_cons, cbcMac_cons] at hchain
  have hfirst : (0 : BitVec 8) = 0xff := (BitVec.xor_left_inj _).mp (cbcMac_id_byte _ hchain)
  exact absurd hfirst (by decide)

/-- **`AES_CCM_Encrypt`** gives the text of the mode under every cipher, from counters that are
    different, for up to 255 blocks and authenticated data whose length takes two bytes. -/
theorem aesCcmEncrypt_eq_iff (hacc : Accepted plainLength keyLength nonce macLength cipherLength)
    (hsep : cipher ≤ plain ∨ plain + plainLength.toNat ≤ cipher) (haad : aad.length < 2 ^ 32) :
    ((∀ E : Block → Block → Block, (∀ k, Function.Bijective (E k)) →
        IsCcm E mem plain plainLength key keyLength nonce aad macLength cipher cipherLength) ∧
      CountersDistinct nonce plainLength.toNat) ↔
      plainLength.toNat ≤ 4080 ∧ aad.length < 0xff00 := by
  constructor
  · rintro ⟨hall, -⟩
    -- a cipher that changes two blocks only tells the counters apart
    have hplain : plainLength.toNat ≤ 4080 := by
      by_contra hlong
      have htext := ((hall (fun _ => Equiv.swap (Ccm.counterBlock nonce 0) (otherBlock nonce))
        fun _ => Equiv.bijective _).bytes hacc hsep).1 (4080 + 0) (by omega)
      rw [ccmStream_block_256 hacc.nonce_le (by decide), keystream_block_256 _ _ (by decide)] at htext
      exact swap_counterBlock_ne hacc.nonce_le htext
    refine ⟨hplain, ?_⟩
    -- the identity is a cipher too, and shows what goes into the tag
    by_contra hlong
    have hpos : 0 < macLength := Nat.pos_of_ne_zero fun h => absurd (h ▸ hacc.mac) (by decide)
    have htag := ((hall (fun _ => id) fun _ => Function.bijective_id).bytes hacc hsep).2 0 hpos
    exact aesCcmMac_ne_mac hacc.nonce_ge hacc.nonce_le hacc.mac mem plain (by omega)
      (Nat.not_lt.mp hlong) haad htag
  · rintro ⟨hplain, hshort⟩
    exact ⟨fun E _ => isCcm_of_le hacc hsep hplain hshort,
      countersDistinct_of_le hacc.nonce_le hplain⟩

/-- Sixteen bytes of zeros with the cipher of the driver. -/
theorem aesCcmEncrypt_eq_iff_block :
    IsCcm Crypt.aes128 (fun _ => 0) 0 16 (fun _ => 0) 16 (List.replicate 13 0) [] 8 0 24 :=
  ((aesCcmEncrypt_eq_iff ⟨rfl, by decide, by decide, by decide, by decide⟩ (.inl le_rfl)
    (by decide)).mpr ⟨by decide, by decide⟩).1 Crypt.aes128 Crypt.aes128_bijective

/-- A text of 257 blocks: block 256 is encrypted with the counter of the tag, and the counter of
    the last block is that of the first. -/
theorem aesCcmEncrypt_257_blocks :
    ¬IsCcm Crypt.aes128 (fun _ => 0) 0 4112 (fun _ => 0) 16 (List.replicate 13 0) [] 8 0 4120 ∧
      ¬CountersDistinct (List.replicate 13 0) 4112 := by
  refine ⟨not_isCcm_of_injective ⟨rfl, by decide, by decide, by decide, by decide⟩ (.inl le_rfl)
    (by decide) (Crypt.aes128_bijective _).injective, fun h => ?_⟩
  have heq := h 0 256 (by decide) (by decide)
    (by rw [iterate_nextCounter, iterate_nextCounter, counterAt_add_256 _ 1])
  exact absurd heq (by decide)

end

end RalinkSdk.Ccmp
