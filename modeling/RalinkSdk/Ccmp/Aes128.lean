import RalinkSdk.Crypt.AesRounds

/-!
# The AES of the CCMP decryptor

`aes128k128d` works on 16 bytes in a row, which are the columns of the state one after the other, and
makes the key of each round in the place of the one before.  `RT_AES_Encrypt` transposes the state
and expands the key first; both are the same cipher.

## Source

`common/cmm_aes.c`.
-/

namespace RalinkSdk.Ccmp

open Lib.Rijndael Crypt List

/-! ## The functions -/

def sboxTable : List (BitVec 8) :=
  [0x63, 0x7c, 0x77, 0x7b, 0xf2, 0x6b, 0x6f, 0xc5, 0x30, 0x01, 0x67, 0x2b, 0xfe, 0xd7, 0xab, 0x76,
    0xca, 0x82, 0xc9, 0x7d, 0xfa, 0x59, 0x47, 0xf0, 0xad, 0xd4, 0xa2, 0xaf, 0x9c, 0xa4, 0x72, 0xc0,
    0xb7, 0xfd, 0x93, 0x26, 0x36, 0x3f, 0xf7, 0xcc, 0x34, 0xa5, 0xe5, 0xf1, 0x71, 0xd8, 0x31, 0x15,
    0x04, 0xc7, 0x23, 0xc3, 0x18, 0x96, 0x05, 0x9a, 0x07, 0x12, 0x80, 0xe2, 0xeb, 0x27, 0xb2, 0x75,
    0x09, 0x83, 0x2c, 0x1a, 0x1b, 0x6e, 0x5a, 0xa0, 0x52, 0x3b, 0xd6, 0xb3, 0x29, 0xe3, 0x2f, 0x84,
    0x53, 0xd1, 0x00, 0xed, 0x20, 0xfc, 0xb1, 0x5b, 0x6a, 0xcb, 0xbe, 0x39, 0x4a, 0x4c, 0x58, 0xcf,
    0xd0, 0xef, 0xaa, 0xfb, 0x43, 0x4d, 0x33, 0x85, 0x45, 0xf9, 0x02, 0x7f, 0x50, 0x3c, 0x9f, 0xa8,
    0x51, 0xa3, 0x40, 0x8f, 0x92, 0x9d, 0x38, 0xf5, 0xbc, 0xb6, 0xda, 0x21, 0x10, 0xff, 0xf3, 0xd2,
    0xcd, 0x0c, 0x13, 0xec, 0x5f, 0x97, 0x44, 0x17, 0xc4, 0xa7, 0x7e, 0x3d, 0x64, 0x5d, 0x19, 0x73,
    0x60, 0x81, 0x4f, 0xdc, 0x22, 0x2a, 0x90, 0x88, 0x46, 0xee, 0xb8, 0x14, 0xde, 0x5e, 0x0b, 0xdb,
    0xe0, 0x32, 0x3a, 0x0a, 0x49, 0x06, 0x24, 0x5c, 0xc2, 0xd3, 0xac, 0x62, 0x91, 0x95, 0xe4, 0x79,
    0xe7, 0xc8, 0x37, 0x6d, 0x8d, 0xd5, 0x4e, 0xa9, 0x6c, 0x56, 0xf4, 0xea, 0x65, 0x7a, 0xae, 0x08,
    0xba, 0x78, 0x25, 0x2e, 0x1c, 0xa6, 0xb4, 0xc6, 0xe8, 0xdd, 0x74, 0x1f, 0x4b, 0xbd, 0x8b, 0x8a,
    0x70, 0x3e, 0xb5, 0x66, 0x48, 0x03, 0xf6, 0x0e, 0x61, 0x35, 0x57, 0xb9, 0x86, 0xc1, 0x1d, 0x9e,
    0xe1, 0xf8, 0x98, 0x11, 0x69, 0xd9, 0x8e, 0x94, 0x9b, 0x1e, 0x87, 0xe9, 0xce, 0x55, 0x28, 0xdf,
    0x8c, 0xa1, 0x89, 0x0d, 0xbf, 0xe6, 0x42, 0x68, 0x41, 0x99, 0x2d, 0x0f, 0xb0, 0x54, 0xbb, 0x16]

def rtmpCkipSbox (a : BitVec 8) : BitVec 8 := entry sboxTable a

/-- 16 bytes in a row, as the words at 0, 4, 8 and 12. -/
abbrev Line := Four Word

/-- Byte `i` of the row. -/
def Line.byte (a : Line) (i : Nat) : BitVec 8 := a (Fin.ofNat 4 (i / 4)) (Fin.ofNat 4 (i % 4))

def xor32 (a b : Word) : Word := .ofFn fun i => a i ^^^ b i

def xor128 (a b : Line) : Line := .ofFn fun i => xor32 (a i) (b i)

def rconTable : List (BitVec 8) :=
  [0x01, 0x02, 0x04, 0x08, 0x10, 0x20, 0x40, 0x80, 0x1b, 0x36, 0x36, 0x36]

def nextKey (key : Line) (round : Nat) : Line :=
  let sboxKey : Word := ⟨rtmpCkipSbox (key.byte 13), rtmpCkipSbox (key.byte 14),
    rtmpCkipSbox (key.byte 15), rtmpCkipSbox (key.byte 12)⟩
  let rcon := rconTable.getD round 0
  let key0 := xor32 (key 0) sboxKey
  let key0 := { key0 with at0 := key0 0 ^^^ rcon }
  let key4 := xor32 (key 1) key0
  let key8 := xor32 (key 2) key4
  let key12 := xor32 (key 3) key8
  ⟨key0, key4, key8, key12⟩

def byteSub (a : Line) : Line := .ofFn fun i => .ofFn fun j => rtmpCkipSbox (a i j)

def shiftRow (a : Line) : Line :=
  ⟨⟨a.byte 0, a.byte 5, a.byte 10, a.byte 15⟩,
    ⟨a.byte 4, a.byte 9, a.byte 14, a.byte 3⟩,
    ⟨a.byte 8, a.byte 13, a.byte 2, a.byte 7⟩,
    ⟨a.byte 12, a.byte 1, a.byte 6, a.byte 11⟩⟩

def mixColumn (a : Word) : Word :=
  let add1b : Word := .ofFn fun i => if a i &&& 0x80 = 0x80 then 0x1b else 0x00
  let swapHalfs : Word := ⟨a 2, a 3, a 0, a 1⟩
  let rotl : Word := ⟨a 3, a 0, a 1, a 2⟩
  let andf7 : Word := .ofFn fun i => a i &&& 0x7f
  -- from the last byte on, so that the byte before is not shifted yet
  let carried (x before : BitVec 8) : BitVec 8 :=
    if before &&& 0x80 = 0x80 then x <<< 1 ||| 0x01 else x <<< 1
  let andf7 : Word := ⟨andf7 0 <<< 1 &&& 0xfe, carried (andf7 1) (andf7 0),
    carried (andf7 2) (andf7 1), carried (andf7 3) (andf7 2)⟩
  let add1bf7 := xor32 add1b andf7
  let rotr := xor32 a add1bf7
  let rotr : Word := ⟨rotr 1, rotr 2, rotr 3, rotr 0⟩
  xor32 (xor32 add1bf7 rotr) (xor32 swapHalfs rotl)

/-- `ciphertext` and `round_key` of `aes128k128d` behind the round `n`, which is not the last. -/
def aes128Rounds (key data : Line) : Nat → Line × Line
  | 0 => (xor128 key data, nextKey key 0)
  | n + 1 =>
    let (ciphertext, roundKey) := aes128Rounds key data n
    let intermediateb := shiftRow (byteSub ciphertext)
    let intermediatea : Line := .ofFn fun i => mixColumn (intermediateb i)
    (xor128 intermediatea roundKey, nextKey roundKey (n + 1))

/-- The bytes of an array. -/
def loadLine (bytes : List (BitVec 8)) : Line := .ofFn fun i => .ofFn fun j =>
  bytes.getD (4 * i + j) 0

def storeLine (a : Line) : List (BitVec 8) := (range 16).map a.byte

/-- `ciphertext` at the end of `aes128k128d` -/
def aes128State (key data : Line) : Line :=
  let (ciphertext, roundKey) := aes128Rounds key data 9
  xor128 (shiftRow (byteSub ciphertext)) roundKey

def aes128k128d (key data : List (BitVec 8)) : List (BitVec 8) :=
  storeLine (aes128State (loadLine key) (loadLine data))

/-! ## Columns in a row -/

@[simp] theorem xor32_apply (a b : Word) (i : Fin 4) : xor32 a b i = a i ^^^ b i :=
  Four.ofFn_apply _ i

/-- The words of a row are the columns. -/
def lined (a : Line) : State := fun c r => a c r

theorem sboxTable_eq : sboxTable = aesSboxEnc := rfl

@[simp] theorem lined_ofFn (f : Fin 4 → Fin 4 → BitVec 8) :
    lined (.ofFn fun i => .ofFn (f i)) = f := by
  funext c r
  simp [lined]

theorem lined_xor128 (a b : Line) : lined (xor128 a b) = addRoundKey (lined b) (lined a) :=
  lined_ofFn _

theorem lined_byteSub (a : Line) : lined (byteSub a) = subBytes (entry aesSboxEnc) (lined a) := by
  rw [byteSub, lined_ofFn]
  simp only [rtmpCkipSbox, sboxTable_eq]
  rfl

theorem lined_shiftRow (a : Line) : lined (shiftRow a) = shiftRows (lined a) := by
  funext c r
  fin_cases c <;> fin_cases r <;> rfl

theorem doubled_eq : ∀ a : BitVec 8,
    (if a &&& 0x80 = 0x80 then (0x1b : BitVec 8) else 0x00) ^^^ (a &&& 0x7f) <<< 1 = xtime a ∧
      (a &&& 0x7f) <<< 1 &&& (0xfe : BitVec 8) = (a &&& 0x7f) <<< 1 ∧
      ¬((a &&& 0x7f) &&& 0x80 = 0x80) := by
  decide +kernel

theorem add1bf7_eq (a : Word) :
    let andf7 : Word := .ofFn fun i => a i &&& 0x7f
    let carried (x before : BitVec 8) : BitVec 8 :=
      if before &&& 0x80 = 0x80 then x <<< 1 ||| 0x01 else x <<< 1
    xor32 (.ofFn fun i => if a i &&& 0x80 = 0x80 then 0x1b else 0x00)
      ⟨andf7 0 <<< 1 &&& 0xfe, carried (andf7 1) (andf7 0), carried (andf7 2) (andf7 1),
        carried (andf7 3) (andf7 2)⟩ = .ofFn fun i => xtime (a i) := by
  intro andf7 carried
  have hsum := fun i => (doubled_eq (a i)).1
  have hmask := fun i => (doubled_eq (a i)).2.1
  have handf7 : ∀ i, andf7 i = a i &&& 0x7f := Four.ofFn_apply _
  have hcarried : ∀ i j, carried (andf7 i) (andf7 j) = (a i &&& 0x7f) <<< 1 := fun i j => by
    rw [← handf7 i]
    exact if_neg (by rw [handf7 j]; exact (doubled_eq (a j)).2.2)
  rw [hcarried, hcarried, hcarried, handf7, hmask]
  refine Four.ext_apply fun i => ?_
  rw [xor32, Four.ofFn_apply, Four.ofFn_apply, Four.ofFn_apply, ← hsum i]
  fin_cases i <;> rfl

theorem mixColumn_eq (a : Word) : (mixColumn a : Column) = Lib.Rijndael.mixColumn a := by
  have hdouble := add1bf7_eq a
  dsimp only at hdouble
  have hentry : ∀ i : Fin 4, mixColumn a i =
      xtime (a i) ^^^ (a (i + 1) ^^^ xtime (a (i + 1))) ^^^ (a (i + 2) ^^^ a (i + 3)) := by
    intro i
    unfold mixColumn
    dsimp only
    rw [hdouble]
    fin_cases i <;> rfl
  funext r
  rw [hentry, Lib.Rijndael.mixColumn, mul3]
  ac_rfl

/-! ## The keys of the rounds -/

def roundKeyAt (key : Line) : Nat → Line
  | 0 => key
  | r + 1 => nextKey (roundKeyAt key r) r

theorem aes128Rounds_snd (key data : Line) (n : Nat) :
    (aes128Rounds key data n).2 = roundKeyAt key (n + 1) := by
  induction n with
  | zero => rfl
  | succ n ih =>
    rw [roundKeyAt, ← ih]
    rfl

/-- The words of all these keys. -/
def roundWord (key : Line) (i : Nat) : Column := lined (roundKeyAt key (i / 4)) (Fin.ofNat 4 i)

theorem roundKey_roundWord (key : Line) (r : Nat) :
    roundKey (roundWord key) r = lined (roundKeyAt key r) := by
  funext c
  have hdiv : (4 * r + c.val) / 4 = r := by omega
  have hmod : Fin.ofNat 4 (4 * r + c.val) = c := Fin.ext (by simp [Fin.ofNat])
  rw [roundKey, roundWord, hdiv, hmod]

theorem rconTable_eq : ∀ r < 10, rconTable.getD r 0 = rconAt (r + 1) := by decide +kernel

theorem nextKey_words (key : Line) {r : Nat} (hr : r < 10) :
    lined (nextKey key r) 0 = (fun i => key 0 i ^^^
        scheduleTemp (entry aesSboxEnc) rconAt 4 (4 * (r + 1)) (key 3) i) ∧
      ∀ c : Fin 3, lined (nextKey key r) c.succ =
        fun i => key c.succ i ^^^ lined (nextKey key r) c.castSucc i := by
  constructor
  · have hmod : 4 * (r + 1) % 4 = 0 := by omega
    have hdiv : 4 * (r + 1) / 4 = r + 1 := by omega
    funext i
    rw [scheduleTemp, if_pos hmod, hdiv, ← rconTable_eq r hr]
    fin_cases i
    · exact BitVec.xor_assoc _ _ _
    all_goals
      simp
      rfl
  · intro c
    funext i
    fin_cases c <;> exact xor32_apply _ _ i

/-- **The keys in place** are the key schedule. -/
theorem isSchedule_roundKeys (key : Line) :
    IsSchedule (entry aesSboxEnc) rconAt 4 (fun i => lined key (Fin.ofNat 4 i)) 44
      (roundWord key) := by
  refine ⟨fun i hi => ?_, fun i hi hlt => ?_⟩
  · rw [roundWord, Nat.div_eq_of_lt hi]
    rfl
  · obtain ⟨r, c, rfl⟩ : ∃ r, ∃ c : Fin 4, i = 4 * (r + 1) + c :=
      ⟨i / 4 - 1, Fin.ofNat 4 i, by simp [Fin.ofNat]; omega⟩
    have hr : r < 10 := by omega
    obtain ⟨hfirst, hrest⟩ := nextKey_words (roundKeyAt key r) hr
    have hword : ∀ (q : Nat) (d : Fin 4), roundWord key (4 * q + d) = lined (roundKeyAt key q) d :=
      fun q d => congrFun (roundKey_roundWord key q) d
    have hback : 4 * (r + 1) + c.val - 4 = 4 * r + c.val := by omega
    rw [hword, hback, hword]
    refine Fin.cases ?_ (fun d => ?_) c
    · have hlast : 4 * (r + 1) + (0 : Fin 4).val - 1 = 4 * r + (3 : Fin 4).val := by
        simp
        omega
      rw [hlast, hword]
      exact hfirst
    · have hlast : 4 * (r + 1) + d.succ.val - 1 = 4 * (r + 1) + d.castSucc.val := by
        simp
      have hmod : (4 * (r + 1) + d.succ.val) % 4 ≠ 0 := by
        simp
        omega
      rw [hlast, hword, scheduleTemp, if_neg hmod, if_neg (by omega)]
      exact hrest d

/-! ## Encryption -/

theorem lined_aes128Rounds (key data : Line) (n : Nat) : lined (aes128Rounds key data n).1 =
      rounds (entry aesSboxEnc) (roundKey (roundWord key)) (lined data) n := by
  induction n with
  | zero =>
    rw [rounds, roundKey_roundWord]
    show lined (xor128 key data) = addRoundKey (lined key) (lined data)
    rw [lined_xor128]
    funext c r
    exact BitVec.xor_comm _ _
  | succ n ih =>
    have hmix : ∀ a : Line, lined (.ofFn fun i => mixColumn (a i)) = mixColumns (lined a) :=
      fun a => by
        funext c
        exact (congrArg Four.get (Four.ofFn_apply _ c)).trans (mixColumn_eq (a c))
    rw [rounds, roundKey_roundWord, ← aes128Rounds_snd key data n, Lib.Rijndael.round, ← ih,
      ← lined_byteSub, ← lined_shiftRow, ← hmix, ← lined_xor128]
    rfl

/-- **`aes128k128d`** is the cipher. -/
theorem lined_aes128State (key data : Line) : lined (aes128State key data) =
      cipher (entry aesSboxEnc) 9 (roundKey (roundWord key)) (lined data) := by
  rw [cipher, roundKey_roundWord, ← aes128Rounds_snd key data 9, ← lined_aes128Rounds,
    ← lined_byteSub, ← lined_shiftRow, ← lined_xor128]
  rfl

theorem columns_loadState (block : List (BitVec 8)) :
    columns (loadState block) = lined (loadLine block) := by
  rw [loadState, columns_ofFn, loadLine, lined_ofFn]
  funext c r
  rw [Nat.add_comm]

theorem storeState_eq_storeLine {s : Rows} {a : Line} (h : columns s = lined a) :
    storeState s = storeLine a :=
  map_congr_left fun i _ => congrFun (congrFun h (Fin.ofNat 4 (i / 4))) (Fin.ofNat 4 (i % 4))

theorem roundKey_keyWordExpansion {key : List (BitVec 8)} (hkey : key.length = 16) {r : Nat}
    (hr : r ≤ 10) :
    roundKey (wordAt (keyWordExpansion key)) r = roundKey (roundWord (loadLine key)) r := by
  have hexpand := isSchedule_keyWordExpansion key (by rw [hkey]; decide)
  rw [hkey] at hexpand
  have hinPlace := isSchedule_roundKeys (loadLine key)
  have hstart : ∀ i < 4, lined (loadLine key) (Fin.ofNat 4 i) = keyColumn key i := fun i hi => by
    rw [loadLine, lined_ofFn]
    funext j
    rw [keyColumn, show (Fin.ofNat 4 i).val = i from Nat.mod_eq_of_lt hi]
  have hinPlace : IsSchedule (entry aesSboxEnc) rconAt 4 (keyColumn key) 44
      (roundWord (loadLine key)) :=
    ⟨fun i hi => (hinPlace.start i hi).trans (hstart i hi), hinPlace.next⟩
  funext c
  exact hexpand.unique (by decide) hinPlace (by omega)

/-- **The two encryptors** agree. -/
theorem rtAesEncrypt_eq_aes128k128d (key block : List (BitVec 8)) (hkey : key.length = 16)
    (hblock : block.length = 16) {cipherBlockSize : Nat} (hsize : 16 ≤ cipherBlockSize) :
    rtAesEncrypt block key cipherBlockSize = some (aes128k128d key block) := by
  have hrun : ¬(block.length ≠ 16 ∨ key.length ∉ aesKeyLengths ∨ cipherBlockSize < 16) := by
    rintro (h | h | h)
    · exact h hblock
    · exact h (by rw [hkey]; decide)
    · exact absurd h (Nat.not_lt.mpr hsize)
  rw [rtAesEncrypt, if_neg hrun, aes128k128d]
  refine congrArg some (storeState_eq_storeLine ?_)
  rw [hkey, show 16 / 4 + 6 = 9 + 1 from rfl, columns_encryptState, lined_aes128State,
    columns_loadState]
  exact cipher_congr (fun i hi => roundKey_keyWordExpansion hkey hi) _

/-- The key and the block of zeros. -/
theorem rtAesEncrypt_eq_aes128k128d_zeros :
    rtAesEncrypt (List.replicate 16 0) (List.replicate 16 0) 16 =
      some (aes128k128d (List.replicate 16 0) (List.replicate 16 0)) :=
  rtAesEncrypt_eq_aes128k128d _ _ rfl rfl le_rfl

end RalinkSdk.Ccmp
