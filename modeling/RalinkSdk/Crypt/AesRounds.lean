import RalinkSdk.Crypt.Aes

/-!
# AES is Rijndael

The tables hold the products and the substitutions that they are named after, so that the functions
of `RalinkSdk.Crypt.Aes` are the rounds of `RalinkSdk.Lib.Rijndael` on the transposed state.
-/

namespace RalinkSdk.Crypt

open Lib Lib.Rijndael List

/-! ## Tables -/

def tableOf (f : BitVec 8 → BitVec 8) : List (BitVec 8) :=
  (range 256).map fun i => f (BitVec.ofNat 8 i)

theorem entry_tableOf (f : BitVec 8 → BitVec 8) (a : BitVec 8) : entry (tableOf f) a = f a := by
  have ha : a.toNat < (tableOf f).length := by
    rw [tableOf, length_map, length_range]
    exact a.isLt
  rw [entry, getD_eq_getElem _ _ ha]
  simp [tableOf]

theorem tables_eq : (aesMul2 = tableOf xtime ∧ aesMul3 = tableOf mul3 ∧ aesMul9 = tableOf mul9 ∧
      aesMulB = tableOf mul11 ∧ aesMulD = tableOf mul13 ∧ aesMulE = tableOf mul14) ∧
    ∀ a : BitVec 8, entry aesSboxDec (entry aesSboxEnc a) = a := by
  decide +kernel

theorem aesMul2_eq : aesMul2 = tableOf xtime := tables_eq.1.1

theorem aesMul3_eq : aesMul3 = tableOf mul3 := tables_eq.1.2.1

theorem aesMul9_eq : aesMul9 = tableOf mul9 := tables_eq.1.2.2.1

theorem aesMulB_eq : aesMulB = tableOf mul11 := tables_eq.1.2.2.2.1

theorem aesMulD_eq : aesMulD = tableOf mul13 := tables_eq.1.2.2.2.2.1

theorem aesMulE_eq : aesMulE = tableOf mul14 := tables_eq.1.2.2.2.2.2

theorem aesSboxDec_enc (a : BitVec 8) : entry aesSboxDec (entry aesSboxEnc a) = a := tables_eq.2 a

/-! ## Words and states as columns -/

def columns (s : Rows) : State := fun c r => s r c

theorem columns_injective {s t : Rows} (h : columns s = columns t) : s = t := by
  have hat : ∀ r c, s r c = t r c := fun r c => congrFun (congrFun h c) r
  exact Four.ext_apply fun r => Four.ext_apply fun c => hat r c

@[simp] theorem columns_ofFn (f : Fin 4 → Fin 4 → BitVec 8) :
    columns (.ofFn f) = fun c r => f r c := by
  funext c r
  simp [columns, Rows.ofFn]

/-- The words as they are looked up. -/
def wordAt (words : List Word) (i : Nat) : Column := words.getD i zeroWord

section

variable (words : List Word) (s : Rows)

theorem columns_addRoundKey (r : Nat) :
    columns (aesAddRoundKey words r s) = addRoundKey (roundKey (wordAt words) r) (columns s) := by
  rw [aesAddRoundKey, columns_ofFn]
  funext c row
  rw [Nat.mul_comm r 4]
  rfl

theorem columns_subBytes (sbox : List (BitVec 8)) :
    columns (aesSubBytes sbox s) = subBytes (entry sbox) (columns s) :=
  columns_ofFn _

theorem columns_shiftRows : columns (aesShiftRows s) = shiftRows (columns s) := by
  funext c r
  fin_cases c <;> fin_cases r <;> rfl

theorem columns_invShiftRows : columns (aesInvShiftRows s) = invShiftRows (columns s) := by
  funext c r
  fin_cases c <;> fin_cases r <;> rfl

theorem columns_mixColumns : columns (aesMixColumns s) = mixColumns (columns s) := by
  rw [aesMixColumns, columns_ofFn]
  funext c r
  simp only [aesMul2_eq, aesMul3_eq, entry_tableOf]
  fin_cases r
  · rfl
  · show _ = xtime (s 1 c) ^^^ mul3 (s 2 c) ^^^ s 3 c ^^^ s 0 c
    show s 0 c ^^^ xtime (s 1 c) ^^^ mul3 (s 2 c) ^^^ s 3 c = _
    ac_rfl
  · show s 0 c ^^^ s 1 c ^^^ xtime (s 2 c) ^^^ mul3 (s 3 c) =
      xtime (s 2 c) ^^^ mul3 (s 3 c) ^^^ s 0 c ^^^ s 1 c
    ac_rfl
  · show mul3 (s 0 c) ^^^ s 1 c ^^^ s 2 c ^^^ xtime (s 3 c) =
      xtime (s 3 c) ^^^ mul3 (s 0 c) ^^^ s 1 c ^^^ s 2 c
    ac_rfl

theorem columns_invMixColumns : columns (aesInvMixColumns s) = invMixColumns (columns s) := by
  rw [aesInvMixColumns, columns_ofFn]
  funext c r
  simp only [aesMul9_eq, aesMulB_eq, aesMulD_eq, aesMulE_eq, entry_tableOf]
  fin_cases r
  · rfl
  · show mul9 (s 0 c) ^^^ mul14 (s 1 c) ^^^ mul11 (s 2 c) ^^^ mul13 (s 3 c) =
      mul14 (s 1 c) ^^^ mul11 (s 2 c) ^^^ mul13 (s 3 c) ^^^ mul9 (s 0 c)
    ac_rfl
  · show mul13 (s 0 c) ^^^ mul9 (s 1 c) ^^^ mul14 (s 2 c) ^^^ mul11 (s 3 c) =
      mul14 (s 2 c) ^^^ mul11 (s 3 c) ^^^ mul13 (s 0 c) ^^^ mul9 (s 1 c)
    ac_rfl
  · show mul11 (s 0 c) ^^^ mul13 (s 1 c) ^^^ mul9 (s 2 c) ^^^ mul14 (s 3 c) =
      mul14 (s 3 c) ^^^ mul11 (s 0 c) ^^^ mul13 (s 1 c) ^^^ mul9 (s 2 c)
    ac_rfl

/-! ## Encryption and decryption -/

theorem columns_encryptRounds (n : Nat) : columns (encryptRounds words s n) =
      rounds (entry aesSboxEnc) (roundKey (wordAt words)) (columns s) n := by
  induction n with
  | zero => exact columns_addRoundKey words s 0
  | succ n ih =>
    rw [encryptRounds, columns_addRoundKey, columns_mixColumns, columns_shiftRows,
      columns_subBytes, ih]
    rfl

/-- **`RT_AES_Encrypt`** is the cipher. -/
theorem columns_encryptState (n : Nat) : columns (encryptState words (n + 1) s) =
      cipher (entry aesSboxEnc) n (roundKey (wordAt words)) (columns s) := by
  rw [encryptState, columns_addRoundKey, columns_shiftRows, columns_subBytes, Nat.add_sub_cancel,
    columns_encryptRounds]
  rfl

theorem columns_decryptRounds (n : Nat) (s : Rows) : columns (decryptRounds words n s) =
      invRounds (entry aesSboxDec) (roundKey (wordAt words)) n
        (subBytes (entry aesSboxDec) (invShiftRows (columns s))) := by
  induction n generalizing s with
  | zero =>
    rw [decryptRounds, columns_addRoundKey, columns_subBytes, columns_invShiftRows]
    rfl
  | succ n ih =>
    rw [decryptRounds, ih, columns_invMixColumns, columns_addRoundKey, columns_subBytes,
      columns_invShiftRows]
    rfl

/-- **`RT_AES_Decrypt`** is the cipher backwards. -/
theorem columns_decryptState (n : Nat) : columns (decryptState words (n + 1) s) =
      invCipher (entry aesSboxDec) n (roundKey (wordAt words)) (columns s) := by
  rw [decryptState, Nat.add_sub_cancel, columns_decryptRounds, columns_addRoundKey]
  rfl

theorem decryptState_encryptState (n : Nat) :
    decryptState words (n + 1) (encryptState words (n + 1) s) = s := by
  apply columns_injective
  rw [columns_decryptState, columns_encryptState, invCipher_cipher aesSboxDec_enc]

end

/-! ## The key expansion -/

/-- The constant of a round is the high byte. -/
def rconAt (i : Nat) : BitVec 8 := (aesRcon.getD i 0 >>> 24).setWidth 8

theorem aesRcon_low (i : Nat) : (aesRcon.getD i 0 >>> 16).setWidth 8 = (0 : BitVec 8) ∧
    (aesRcon.getD i 0 >>> 8).setWidth 8 = (0 : BitVec 8) ∧
    (aesRcon.getD i 0).setWidth 8 = (0 : BitVec 8) := by
  rcases Nat.lt_or_ge i 11 with hlt | hge
  · revert i
    decide +kernel
  · rw [getD_eq_default _ _ hge]
    decide

theorem tempWord_eq (nk i : Nat) (last : Word) :
    (tempWord nk i last : Column) = scheduleTemp (entry aesSboxEnc) rconAt nk i last := by
  obtain ⟨h1, h2, h3⟩ := aesRcon_low (i / nk)
  funext r
  unfold tempWord scheduleTemp
  by_cases hmod : i % nk = 0
  · rw [if_pos hmod, if_pos hmod]
    dsimp only
    rw [h1, h2, h3]
    fin_cases r <;> rfl
  · rw [if_neg hmod, if_neg hmod]
    by_cases hlong : 6 < nk ∧ i % nk = 4
    · rw [if_pos hlong, if_pos hlong]
      exact Four.ofFn_apply _ r
    · rw [if_neg hlong, if_neg hlong]

/-- The words of the key itself. -/
def keyColumn (key : List (BitVec 8)) (i : Nat) : Column := fun r => key.getD (4 * i + r) 0

theorem isSchedule_expandLoop {nk : Nat} (hnk : 0 < nk) {key : Nat → Column} (n : Nat)
    {words : List Word} (hle : nk ≤ words.length)
    (h : IsSchedule (entry aesSboxEnc) rconAt nk key words.length (wordAt words)) :
    IsSchedule (entry aesSboxEnc) rconAt nk key (words.length + n)
      (wordAt (expandLoop nk n words)) := by
  induction n generalizing words with
  | zero => exact h
  | succ n ih =>
    rw [expandLoop]
    set word : Word := .ofFn fun row =>
      words.getD (words.length - nk) zeroWord row ^^^
        tempWord nk words.length (words.getD (words.length - 1) zeroWord) row with hword
    have hold : ∀ i < words.length, wordAt (words ++ [word]) i = wordAt words i := fun i hi => by
      rw [wordAt, wordAt, getD_append _ _ _ _ hi]
    have hnew : wordAt (words ++ [word]) words.length = word := by
      rw [wordAt, getD_append_right _ _ _ _ le_rfl, Nat.sub_self, getD_cons_zero]
    have hlen : (words ++ [word]).length = words.length + 1 := by simp
    have hstep : IsSchedule (entry aesSboxEnc) rconAt nk key (words ++ [word]).length
        (wordAt (words ++ [word])) := by
      refine ⟨fun i hi => ?_, fun i hi hlt => ?_⟩
      · rw [hold i (hi.trans_le hle), h.start i hi]
      · rw [hlen] at hlt
        rcases Nat.lt_succ_iff_lt_or_eq.mp hlt with hlt | rfl
        · rw [hold i hlt, h.next i hi hlt, hold (i - nk) (by omega), hold (i - 1) (by omega)]
        · rw [hnew, hold _ (by omega), hold _ (by omega), hword]
          funext r
          rw [Four.ofFn_apply, tempWord_eq]
          rfl
    have hrest := ih (by rw [hlen]; omega) hstep
    rwa [hlen, Nat.add_right_comm] at hrest

/-- **`RT_AES_KeyExpansion`** makes the key schedule. -/
theorem isSchedule_keyWordExpansion (key : List (BitVec 8)) (hkey : 4 ≤ key.length) :
    IsSchedule (entry aesSboxEnc) rconAt (key.length / 4) (keyColumn key)
      (4 * (key.length / 4 + 7)) (wordAt (keyWordExpansion key)) := by
  have hnk : 0 < key.length / 4 := Nat.div_pos hkey (by decide)
  rw [keyWordExpansion]
  set words : List Word := (range (key.length / 4)).map fun keyIndex =>
    .ofFn fun row => key.getD (4 * keyIndex + row) 0 with hwords
  have hlen : words.length = key.length / 4 := by simp [hwords]
  have hstart : IsSchedule (entry aesSboxEnc) rconAt (key.length / 4) (keyColumn key) words.length
      (wordAt words) := by
    refine ⟨fun i hi => ?_, fun i hi hlt => absurd hlt (by rw [hlen]; exact Nat.not_lt.mpr hi)⟩
    have hi' : i < words.length := hlen.symm ▸ hi
    rw [wordAt, getD_eq_getElem _ _ hi']
    funext r
    simp [hwords, keyColumn]
  have hall := isSchedule_expandLoop hnk (4 * (key.length / 4 + 6 + 1) - key.length / 4) hlen.ge
    hstart
  rwa [hlen, show key.length / 4 + (4 * (key.length / 4 + 6 + 1) - key.length / 4) =
    4 * (key.length / 4 + 7) by omega] at hall

/-! ## Blocks -/

@[simp] theorem length_storeState (s : Rows) : (storeState s).length = 16 := by
  simp [storeState]

@[simp] theorem loadState_storeState (s : Rows) : loadState (storeState s) = s := by
  apply columns_injective
  rw [loadState, columns_ofFn]
  funext c r
  fin_cases c <;> fin_cases r <;> rfl

theorem storeState_loadState {block : List (BitVec 8)} (h : block.length = 16) :
    storeState (loadState block) = block := by
  apply ext_getElem
  · rw [length_storeState, h]
  intro i hi hi'
  rw [length_storeState] at hi
  interval_cases i <;> simp [storeState, loadState, Rows.ofFn, hi']

/-- **Round trip**: `RT_AES_Decrypt` gives back what `RT_AES_Encrypt` was given. -/
theorem rtAesDecrypt_rtAesEncrypt (key block : List (BitVec 8)) (hkey : key.length ∈ aesKeyLengths)
    (hblock : block.length = 16) {cipherBlockSize plainBlockSize : Nat}
    (hcipher : 16 ≤ cipherBlockSize) (hplain : 16 ≤ plainBlockSize) :
    ∃ cipherBlock, rtAesEncrypt block key cipherBlockSize = some cipherBlock ∧
      rtAesDecrypt cipherBlock key plainBlockSize = some block := by
  refine ⟨_, if_neg ?_, ?_⟩
  · rintro (h | h | h)
    · exact h hblock
    · exact h hkey
    · exact absurd h (Nat.not_lt.mpr hcipher)
  · have hrun : ¬(plainBlockSize < 16 ∨ key.length ∉ aesKeyLengths ∨
        (storeState (encryptState (keyWordExpansion key) (key.length / 4 + 6)
          (loadState block))).length ≠ 16) := by
      rintro (h | h | h)
      · exact absurd h (Nat.not_lt.mpr hplain)
      · exact h hkey
      · exact h (length_storeState _)
    rw [rtAesDecrypt, if_neg hrun, loadState_storeState,
      show key.length / 4 + 6 = key.length / 4 + 5 + 1 from rfl, decryptState_encryptState,
      storeState_loadState hblock]

/-- The key and the block of zeros. -/
theorem rtAesDecrypt_rtAesEncrypt_zeros : ∃ cipherBlock,
      rtAesEncrypt (List.replicate 16 0) (List.replicate 16 0) 16 = some cipherBlock ∧
        rtAesDecrypt cipherBlock (List.replicate 16 0) 16 = some (List.replicate 16 0) :=
  rtAesDecrypt_rtAesEncrypt _ _ (by decide) rfl le_rfl le_rfl

end RalinkSdk.Crypt
