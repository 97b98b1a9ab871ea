import RalinkSdk.Crypt.KeyWrap
import RalinkSdk.Crypt.AesBlock

/-!
# What unwrapping accepts

`AES_Key_Wrap` and `AES_Key_Unwrap` with the AES of the driver and with their function values.
Unwrapping recovers the initial value and does not look at it.

## Source

`common/crypt_aes.c`.
-/

namespace RalinkSdk.Crypt

open Lib List

/-! ## Any initial value -/

section

variable (E D : Buf 16 → Buf 16)

def keyWrapRounds (n : Nat) (p : Buf 8 × List (Buf 8)) : Buf 8 × List (Buf 8) :=
  (range 6).foldl (fun (iv, blocks) j => keyWrapPass E n j 0 iv blocks) p

def keyUnwrapRounds (n : Nat) (p : Buf 8 × List (Buf 8)) : Buf 8 × List (Buf 8) :=
  (range 6).reverse.foldl (fun (iv, blocks) j => keyUnwrapPass D n j 0 iv blocks) p

/-- `AES_Key_Wrap` with this value in the place of `Default_IV`. -/
def aesKeyWrapFrom (iv : Buf 8) (plainText : List Byte) : List Byte :=
  let (blocks, rest) := wholeBlocks plainText
  let (iv, blocks) := keyWrapRounds E blocks.length (iv, blocks)
  iv.bytes ++ (blockBytes blocks ++ rest)

theorem length_sentIv {cipherText : List Byte} (h : 8 ≤ cipherText.length) :
    (cipherText.take 8).length = 8 := length_take_of_le h

/-- `IV` at the end of `AES_Key_Unwrap`. -/
def recoveredIv (cipherText : List Byte) (h : 8 ≤ cipherText.length) : Buf 8 :=
  (keyUnwrapRounds D (wholeBlocks (cipherText.drop 8)).1.length
    (⟨cipherText.take 8, length_sentIv h⟩, (wholeBlocks (cipherText.drop 8)).1)).1

theorem aesKeyWrap_eq (plainText : List Byte) :
    aesKeyWrap E plainText = aesKeyWrapFrom E defaultIv plainText := rfl

variable {E D}

theorem keyWrapStep_unwrapStep (h : ∀ b, E (D b) = b) (t : Nat) (iv r : Buf 8) :
    keyWrapStep E t (keyUnwrapStep D t iv r).1 (keyUnwrapStep D t iv r).2 = (iv, r) := by
  simp [keyUnwrapStep, keyWrapStep, xorCount, xorBuf_cancel, h]

theorem keyWrapPass_unwrapPass (h : ∀ b, E (D b) = b) (n j i : Nat) (iv : Buf 8)
    (rs : List (Buf 8)) :
    keyWrapPass E n j i (keyUnwrapPass D n j i iv rs).1 (keyUnwrapPass D n j i iv rs).2 =
      (iv, rs) := by
  induction rs generalizing i iv with
  | nil => rfl
  | cons r rs ih =>
    have hstep := keyWrapStep_unwrapStep h (n * j + i + 1) (keyUnwrapPass D n j (i + 1) iv rs).1 r
    simp only [keyWrapPass, keyUnwrapPass, hstep]
    rw [ih]

theorem keyWrapRounds_unwrapRounds (h : ∀ b, E (D b) = b) (n : Nat)
    (p : Buf 8 × List (Buf 8)) : keyWrapRounds E n (keyUnwrapRounds D n p) = p := by
  have hpasses : ∀ (js : List Nat) (p : Buf 8 × List (Buf 8)),
      js.foldl (fun (iv, blocks) j => keyWrapPass E n j 0 iv blocks)
        (js.reverse.foldl (fun (iv, blocks) j => keyUnwrapPass D n j 0 iv blocks) p) = p := by
    intro js
    induction js with
    | nil => intro p; rfl
    | cons j js ih =>
      intro p
      rw [reverse_cons, foldl_append, foldl_cons, foldl_cons, foldl_nil]
      dsimp only
      rw [keyWrapPass_unwrapPass h, ih]
  exact hpasses (range 6) p

theorem keyUnwrapRounds_wrapRounds' (h : ∀ b, D (E b) = b) (n : Nat)
    (p : Buf 8 × List (Buf 8)) : keyUnwrapRounds D n (keyWrapRounds E n p) = p :=
  keyUnwrapRounds_wrapRounds h n (range 6) p

theorem length_keyUnwrapPass (n j i : Nat) (iv : Buf 8) (rs : List (Buf 8)) :
    (keyUnwrapPass D n j i iv rs).2.length = rs.length := by
  induction rs generalizing i iv with
  | nil => rfl
  | cons r rs ih => simp [keyUnwrapPass, ih]

theorem length_keyUnwrapRounds (n : Nat) (p : Buf 8 × List (Buf 8)) :
    (keyUnwrapRounds D n p).2.length = p.2.length := by
  have hpasses : ∀ (js : List Nat) (p : Buf 8 × List (Buf 8)),
      (js.foldl (fun (iv, blocks) j => keyUnwrapPass D n j 0 iv blocks) p).2.length =
        p.2.length := by
    intro js
    induction js with
    | nil => intro p; rfl
    | cons j js ih =>
      intro p
      rw [foldl_cons, ih]
      exact length_keyUnwrapPass n j 0 p.1 p.2
  exact hpasses _ p

end

/-! ## Texts -/

section

variable {E D : Buf 16 → Buf 16}

theorem exists_blocks (text : List Byte) :
    ∃ (blocks : List (Buf 8)) (rest : List Byte), rest.length < 8 ∧
      text = blockBytes blocks ++ rest :=
  ⟨_, _, length_rest_wholeBlocks text, (blockBytes_wholeBlocks text).symm⟩

theorem aesKeyWrapFrom_blocks (iv : Buf 8) (blocks : List (Buf 8)) {rest : List Byte}
    (hrest : rest.length < 8) : aesKeyWrapFrom E iv (blockBytes blocks ++ rest) =
      (keyWrapRounds E blocks.length (iv, blocks)).1.bytes ++
        (blockBytes (keyWrapRounds E blocks.length (iv, blocks)).2 ++ rest) := by
  rw [aesKeyWrapFrom, wholeBlocks_append blocks hrest]

theorem aesKeyUnwrap_blocks (iv : Buf 8) (blocks : List (Buf 8)) {rest : List Byte}
    (hrest : rest.length < 8) : aesKeyUnwrap D (iv.bytes ++ (blockBytes blocks ++ rest)) =
      blockBytes (keyUnwrapRounds D blocks.length (iv, blocks)).2 ++ rest := by
  rw [aesKeyUnwrap, dif_pos (by simp [iv.size])]
  simp only [drop_left' iv.size, take_left' iv.size, wholeBlocks_append blocks hrest]
  rfl

theorem recoveredIv_blocks (iv : Buf 8) (blocks : List (Buf 8)) {rest : List Byte}
    (hrest : rest.length < 8) (h : 8 ≤ (iv.bytes ++ (blockBytes blocks ++ rest)).length) :
    recoveredIv D (iv.bytes ++ (blockBytes blocks ++ rest)) h =
      (keyUnwrapRounds D blocks.length (iv, blocks)).1 := by
  simp only [recoveredIv, drop_left' iv.size, take_left' iv.size, wholeBlocks_append blocks hrest]

theorem le_length_aesKeyWrapFrom (iv : Buf 8) (text : List Byte) :
    8 ≤ (aesKeyWrapFrom E iv text).length := by
  simp [aesKeyWrapFrom, Buf.size]

theorem aesKeyUnwrap_wrapFrom (h : ∀ b, D (E b) = b) (iv : Buf 8) (text : List Byte) :
    aesKeyUnwrap D (aesKeyWrapFrom E iv text) = text := by
  obtain ⟨blocks, rest, hrest, rfl⟩ := exists_blocks text
  have hlen : (keyWrapRounds E blocks.length (iv, blocks)).2.length = blocks.length :=
    length_keyWrapRounds blocks.length (range 6) (iv, blocks)
  rw [aesKeyWrapFrom_blocks iv blocks hrest, aesKeyUnwrap_blocks _ _ hrest, hlen,
    keyUnwrapRounds_wrapRounds' h]

theorem recoveredIv_wrapFrom (h : ∀ b, D (E b) = b) (iv : Buf 8) (text : List Byte)
    (hroom : 8 ≤ (aesKeyWrapFrom E iv text).length) :
    recoveredIv D (aesKeyWrapFrom E iv text) hroom = iv := by
  obtain ⟨blocks, rest, hrest, rfl⟩ := exists_blocks text
  have hlen : (keyWrapRounds E blocks.length (iv, blocks)).2.length = blocks.length :=
    length_keyWrapRounds blocks.length (range 6) (iv, blocks)
  simp only [aesKeyWrapFrom_blocks iv blocks hrest]
  rw [recoveredIv_blocks _ _ hrest, hlen, keyUnwrapRounds_wrapRounds' h]

theorem aesKeyWrapFrom_recoveredIv (h : ∀ b, E (D b) = b) (cipherText : List Byte)
    (hroom : 8 ≤ cipherText.length) :
    aesKeyWrapFrom E (recoveredIv D cipherText hroom) (aesKeyUnwrap D cipherText) =
      cipherText := by
  obtain ⟨iv, tail, rfl⟩ : ∃ (iv : Buf 8) (tail : List Byte), cipherText = iv.bytes ++ tail :=
    ⟨⟨cipherText.take 8, by simp [hroom]⟩, cipherText.drop 8, (take_append_drop 8 _).symm⟩
  obtain ⟨blocks, rest, hrest, rfl⟩ := exists_blocks tail
  have hlen : (keyUnwrapRounds D blocks.length (iv, blocks)).2.length = blocks.length :=
    length_keyUnwrapRounds _ _
  rw [recoveredIv_blocks iv blocks hrest, aesKeyUnwrap_blocks iv blocks hrest,
    aesKeyWrapFrom_blocks _ _ hrest, hlen, keyWrapRounds_unwrapRounds h]

/-- **The recovered initial value** tells what has been wrapped with it. -/
theorem recoveredIv_eq_iff (hDE : ∀ b, D (E b) = b) (hED : ∀ b, E (D b) = b) (iv : Buf 8)
    (cipherText : List Byte) (hroom : 8 ≤ cipherText.length) :
    recoveredIv D cipherText hroom = iv ↔ ∃ text, aesKeyWrapFrom E iv text = cipherText := by
  constructor
  · rintro rfl
    exact ⟨_, aesKeyWrapFrom_recoveredIv hED cipherText hroom⟩
  · rintro ⟨text, rfl⟩
    exact recoveredIv_wrapFrom hDE iv text hroom

end

/-! ## The functions with their values -/

/-- `AES_Key_Wrap`: the cipher text, or the negative value.  `memory` is whether `os_alloc_mem`
    succeeds. -/
def aesKeyWrapWith (memory : Bool) (key plainText : List Byte) : Except Int (List Byte) :=
  if key.length ∉ aesKeyLengths then .error (-1)
  else if !memory then .error (-2)
  else .ok (aesKeyWrap (aesEncryptBlock key) plainText)

/-- `AES_Key_Unwrap`.  Below 8 bytes `PlainLength` wraps to a length that is never allocated. -/
def aesKeyUnwrapWith (memory : Bool) (key cipherText : List Byte) : Except Int (List Byte) :=
  if key.length ∉ aesKeyLengths then .error (-1)
  else if !memory || decide (cipherText.length < 8) then .error (-2)
  else .ok (aesKeyUnwrap (aesDecryptBlock key) cipherText)

/-- The cipher text is what `AES_Key_Wrap` makes of some text. -/
def IsWrapped (key cipherText : List Byte) : Prop :=
  ∃ plainText, aesKeyWrapWith true key plainText = .ok cipherText

/-- An unwrapped text is the wrap of the result. -/
def RejectsOthers (memory : Bool) (key cipherText : List Byte) : Prop :=
  ∀ plainText, aesKeyUnwrapWith memory key cipherText = .ok plainText →
    aesKeyWrapWith true key plainText = .ok cipherText

section

variable {memory : Bool} {key cipherText : List Byte}

theorem aesKeyUnwrapWith_ok {plainText : List Byte} :
    aesKeyUnwrapWith memory key cipherText = .ok plainText ↔
      key.length ∈ aesKeyLengths ∧ memory = true ∧ 8 ≤ cipherText.length ∧
        aesKeyUnwrap (aesDecryptBlock key) cipherText = plainText := by
  unfold aesKeyUnwrapWith
  by_cases hkey : key.length ∈ aesKeyLengths
  · rw [if_neg (not_not.mpr hkey)]
    by_cases hrun : (!memory || decide (cipherText.length < 8)) = true
    · rw [if_pos hrun]
      simp only [Bool.or_eq_true, Bool.not_eq_true', decide_eq_true_eq] at hrun
      constructor
      · rintro ⟨⟩
      · rintro ⟨-, hmem, hlen, -⟩
        rcases hrun with hno | hshort
        · exact absurd (hmem.symm.trans hno) (by decide)
        · exact absurd hshort (Nat.not_lt.mpr hlen)
    · rw [if_neg hrun, Except.ok.injEq]
      simp only [Bool.or_eq_true, Bool.not_eq_true', decide_eq_true_eq, not_or,
        Bool.not_eq_false, Nat.not_lt] at hrun
      exact ⟨fun h => ⟨hkey, hrun.1, hrun.2, h⟩, fun h => h.2.2.2⟩
  · rw [if_pos hkey]
    exact ⟨fun h => (nomatch h), fun h => absurd h.1 hkey⟩

theorem aesKeyWrapWith_ok (hkey : key.length ∈ aesKeyLengths) (plainText : List Byte) :
    aesKeyWrapWith true key plainText = .ok (aesKeyWrap (aesEncryptBlock key) plainText) := by
  rw [aesKeyWrapWith, if_neg (not_not.mpr hkey)]
  rfl

/-- **The round trip**: what `AES_Key_Wrap` writes is 8 bytes longer than the plain text, and
    `AES_Key_Unwrap` returns the plain text. -/
theorem aesKeyUnwrapWith_wrapWith (hkey : key.length ∈ aesKeyLengths) (plainText : List Byte) :
    ∃ cipherText, aesKeyWrapWith true key plainText = .ok cipherText ∧
      cipherText.length = plainText.length + 8 ∧
      aesKeyUnwrapWith true key cipherText = .ok plainText := by
  refine ⟨aesKeyWrap (aesEncryptBlock key) plainText, aesKeyWrapWith_ok hkey plainText, ?len, ?back⟩
  case len => exact length_aesKeyWrap plainText
  case back =>
    -- 8 bytes of initial value stand before the text, so `PlainLength` does not wrap
    have hroom : 8 ≤ (aesKeyWrap (aesEncryptBlock key) plainText).length := by
      rw [length_aesKeyWrap]
      exact Nat.le_add_left 8 _
    exact aesKeyUnwrapWith_ok.mpr
      ⟨hkey, rfl, hroom, aesKeyUnwrap_wrap (aesDecryptBlock_encryptBlock key) plainText⟩

/-- Three blocks under a key of 24 bytes. -/
theorem aesKeyUnwrapWith_wrapWith_zeros : ∃ cipherText,
      aesKeyWrapWith true (List.replicate 24 0) (List.replicate 24 7) = .ok cipherText ∧
        cipherText.length = 32 ∧
        aesKeyUnwrapWith true (List.replicate 24 0) cipherText = .ok (List.replicate 24 7) :=
  aesKeyUnwrapWith_wrapWith (by decide) (List.replicate 24 7)

theorem recoveredIv_eq_defaultIv_iff (hkey : key.length ∈ aesKeyLengths)
    (hroom : 8 ≤ cipherText.length) :
    recoveredIv (aesDecryptBlock key) cipherText hroom = defaultIv ↔ IsWrapped key cipherText := by
  rw [recoveredIv_eq_iff (aesDecryptBlock_encryptBlock key) (aesEncryptBlock_decryptBlock key),
    IsWrapped]
  simp only [aesKeyWrapWith_ok hkey, Except.ok.injEq, aesKeyWrap_eq]

/-- **`AES_Key_Unwrap`** lets pass only what has been wrapped when there is nothing else to pass. -/
theorem aesKeyUnwrapWith_iff (memory : Bool) (key cipherText : List Byte) :
    RejectsOthers memory key cipherText ↔
      key.length ∉ aesKeyLengths ∨ memory = false ∨ cipherText.length < 8 ∨
        IsWrapped key cipherText := by
  constructor
  · intro h
    by_cases hkey : key.length ∈ aesKeyLengths
    · by_cases hmem : memory = true
      · by_cases hroom : 8 ≤ cipherText.length
        · exact .inr (.inr (.inr ⟨_, h _ (aesKeyUnwrapWith_ok.mpr ⟨hkey, hmem, hroom, rfl⟩)⟩))
        · exact .inr (.inr (.inl (Nat.not_le.mp hroom)))
      · exact .inr (.inl (Bool.not_eq_true _ ▸ hmem))
    · exact .inl hkey
  · intro h plainText hok
    obtain ⟨hkey, hmem, hroom, rfl⟩ := aesKeyUnwrapWith_ok.mp hok
    rcases h with h | h | h | ⟨text, htext⟩
    · exact absurd hkey h
    · exact absurd (hmem.symm.trans h) (by decide)
    · omega
    · rw [aesKeyWrapWith_ok hkey, Except.ok.injEq] at htext
      rw [aesKeyWrapWith_ok hkey, ← htext, aesKeyUnwrap_wrap (aesDecryptBlock_encryptBlock key)]

theorem not_rejectsOthers_wrapFrom (hkey : key.length ∈ aesKeyLengths) {iv : Buf 8}
    (hiv : iv ≠ defaultIv) (text : List Byte) :
    ¬RejectsOthers true key (aesKeyWrapFrom (aesEncryptBlock key) iv text) := by
  intro hall
  have hroom := le_length_aesKeyWrapFrom (E := aesEncryptBlock key) iv text
  have hok : aesKeyUnwrapWith true key (aesKeyWrapFrom (aesEncryptBlock key) iv text) = .ok text :=
    aesKeyUnwrapWith_ok.mpr ⟨hkey, rfl, hroom,
      aesKeyUnwrap_wrapFrom (aesDecryptBlock_encryptBlock key) iv text⟩
  have hwrapped := (recoveredIv_eq_defaultIv_iff hkey hroom).mpr ⟨text, hall text hok⟩
  rw [recoveredIv_wrapFrom (aesDecryptBlock_encryptBlock key)] at hwrapped
  exact hiv hwrapped

/-- Nothing wrapped with the initial value 0 by the key of zeros, and two blocks of zeros. -/
theorem not_rejectsOthers_zeros : ¬RejectsOthers true (List.replicate 16 0) (List.replicate 8 0) ∧
      ¬RejectsOthers true (List.replicate 16 0)
        (aesKeyWrapFrom (aesEncryptBlock (List.replicate 16 0)) (Buf.fill 8 0)
          (List.replicate 16 0)) := by
  have hiv : Buf.fill 8 0 ≠ defaultIv := by decide
  have hempty : aesKeyWrapFrom (aesEncryptBlock (List.replicate 16 0)) (Buf.fill 8 0) [] =
      List.replicate 8 0 :=
    (aesKeyWrapFrom_blocks (Buf.fill 8 0) [] (show ([] : List Byte).length < 8 by decide)).trans rfl
  exact ⟨hempty ▸ not_rejectsOthers_wrapFrom (by decide) hiv [],
    not_rejectsOthers_wrapFrom (by decide) hiv _⟩

end

end RalinkSdk.Crypt
