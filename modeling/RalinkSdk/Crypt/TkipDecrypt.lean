import RalinkSdk.Crypt.TkipMix
import RalinkSdk.Crypt.Wep
import RalinkSdk.Lib.Memory

/-!
# TKIP in software

`RTMPSoftDecryptTKIP` with the check value and the MIC, over the body of a received frame.  `none`
is an access outside the body.

## Source

`common/cmm_tkip.c`.
-/

namespace RalinkSdk.Crypt

open Lib List Option Nat
open BitVec (ofNat ofNat_add toNat_ofNat)

/-! ## The MIC -/

/-- `TKIP_KEY_INFO`: the fields that the MIC uses. -/
structure TkipKeyInfo where
  k0 : BitVec 32
  k1 : BitVec 32
  l : BitVec 32
  r : BitVec 32
  m : BitVec 32
  nBytesInM : Nat

def rol32 (a : BitVec 32) (n : Nat) : BitVec 32 :=
  a <<< n ||| (a >>> (32 - n) &&& (1 <<< n - 1))

def ror32 (a : BitVec 32) (n : Nat) : BitVec 32 := rol32 a (32 - n)

def rtmpTkipSetMicKey (micKey : List Byte) : TkipKeyInfo where
  k0 := le32Word micKey
  k1 := le32Word (micKey.drop 4)
  l := le32Word micKey
  r := le32Word (micKey.drop 4)
  m := 0
  nBytesInM := 0

def rtmpTkipAppendByte (t : TkipKeyInfo) (b : Byte) : TkipKeyInfo :=
  let m := t.m ||| b.setWidth 32 <<< (8 * t.nBytesInM)
  if 4 ≤ t.nBytesInM + 1 then
    let l := t.l ^^^ m
    let r := t.r ^^^ rol32 l 17
    let l := l + r
    let r := r ^^^ ((l &&& 0xff00ff00) >>> 8 ||| (l &&& 0x00ff00ff) <<< 8)
    let l := l + r
    let r := r ^^^ rol32 l 3
    let l := l + r
    let r := r ^^^ ror32 l 2
    let l := l + r
    { t with l, r, m := 0, nBytesInM := 0 }
  else { t with m, nBytesInM := t.nBytesInM + 1 }

def rtmpTkipAppend (t : TkipKeyInfo) (src : List Byte) : TkipKeyInfo :=
  src.foldl rtmpTkipAppendByte t

/-- `RTMPTkipGetMIC`: the padding, and zeros until a word is full. -/
def rtmpTkipGetMic (t : TkipKeyInfo) : List Byte :=
  let t := rtmpTkipAppend t [0x5a, 0, 0, 0, 0]
  let t := rtmpTkipAppend t (replicate ((4 - t.nBytesInM) % 4) 0)
  le32Bytes t.l ++ le32Bytes t.r

def rtmpInitMicEngine (da sa : List Byte) (userPriority : Byte) (micKey : List Byte) :
    TkipKeyInfo :=
  rtmpTkipAppend (rtmpTkipAppend (rtmpTkipAppend (rtmpTkipSetMicKey micKey) da) sa)
    [userPriority, 0, 0, 0]

/-! ## Decryption -/

/-- The fields of `CIPHER_KEY` that TKIP uses. -/
structure TkipKey where
  key : Buf 16
  rxMic : Buf 8
  keyLen : BitVec 8

/-- Six bytes of the header. -/
def macAddrAt (hdr : Bytes) (p : Nat) : Buf 6 :=
  ⟨hdr.read p 6, length_read⟩

/-- `DA`, `SA` and `TA`, by `to_ds` and `from_ds`. -/
def tkipAddresses (hdr : Bytes) : Buf 6 × Buf 6 × Buf 6 :=
  let fromDs := (hdr 1 &&& 0x2) >>> 1
  let toDs := hdr 1 &&& 0x1
  if toDs = 0 ∧ fromDs = 1 then (macAddrAt hdr 4, macAddrAt hdr 16, macAddrAt hdr 10)
  else if toDs = 0 ∧ fromDs = 0 then (macAddrAt hdr 4, macAddrAt hdr 10, macAddrAt hdr 10)
  else if toDs = 1 ∧ fromDs = 0 then (macAddrAt hdr 16, macAddrAt hdr 10, macAddrAt hdr 10)
  else (macAddrAt hdr 16, macAddrAt hdr 24, macAddrAt hdr 10)

def tkipRc4Key (hdr : Bytes) (key : TkipKey) (b0 b2 : Byte) (extIv : List Byte) : List Byte :=
  let pnl := b0.setWidth 32 <<< 8 ||| b2.setWidth 32
  (rtmpTkipMixKey key.key (tkipAddresses hdr).2.2 pnl (le32Word extIv)).1

/-- The check of the MIC behind the text, and `*DataByteCnt`. -/
def tkipCheckMic (hdr : Bytes) (userPriority : Byte) (key : TkipKey) (pData : List Byte)
    (dataByteCnt : BitVec 16) (plaintextLen : BitVec 32) :
    Option (Bool × List Byte × BitVec 16) := do
  let plaintextLen := plaintextLen - 8
  let trailMic ← fetch pData plaintextLen.toNat 8
  let (da, sa, _) := tkipAddresses hdr
  let engine := rtmpInitMicEngine da.bytes sa.bytes userPriority key.rxMic.bytes
  let text ← fetch pData 0 plaintextLen.toNat
  let mic := rtmpTkipGetMic (rtmpTkipAppend engine text)
  if mic ≠ trailMic then some (false, pData, dataByteCnt)
  else some (true, pData, plaintextLen.setWidth 16)

/-- `RTMPSoftDecryptTKIP`: the value, the body and `*DataByteCnt`.  The lengths inside are
    `UINT32`. -/
def rtmpSoftDecryptTkip (hdr : Bytes) (userPriority : Byte) (key : TkipKey) (pData : List Byte)
    (dataByteCnt : BitVec 16) : Option (Bool × List Byte × BitVec 16) :=
  if key.keyLen = 0 then some (false, pData, dataByteCnt)
  else do
    let b0 ← pData[0]?
    let b2 ← pData[2]?
    let extIv ← fetch pData 4 4
    let ctx := arc4Init (tkipRc4Key hdr key b0 b2 extIv)
    let ciphertextLen := dataByteCnt.setWidth 32 - 8
    let pData ← arc4InPlace ctx pData 8 0 ciphertextLen.toNat
    let plaintextLen := ciphertextLen - 4
    let trailfcs ← fetch pData plaintextLen.toNat 4
    let plain ← fetch pData 0 plaintextLen.toNat
    if frameIcv plain ≠ le32Word trailfcs then some (false, pData, dataByteCnt)
    else tkipCheckMic hdr userPriority key pData dataByteCnt plaintextLen

/-! ## Received bodies -/

/-- The text behind the IV under the key stream of the frame. -/
def tkipPlainText (hdr : Bytes) (key : TkipKey) (pData : List Byte) : List Byte :=
  arc4Compute (arc4Init (tkipRc4Key hdr key (pData.getD 0 0) (pData.getD 2 0)
    ((pData.drop 4).take 4))) (pData.drop 8)

/-- The last four bytes of the text are the check value of the bytes before them. -/
def TkipIcvMatches (hdr : Bytes) (key : TkipKey) (pData : List Byte) : Prop :=
  let text := tkipPlainText hdr key pData
  frameIcv (text.take (text.length - 4)) = le32Word (text.drop (text.length - 4))

section

variable {hdr : Bytes} {userPriority : Byte} {key : TkipKey} {pData : List Byte}

theorem setWidth_dataByteCnt {n : Nat} (hcap : n < 2 ^ 16) :
    (ofNat 16 n).setWidth 32 = ofNat 32 n := by
  apply BitVec.eq_of_toNat_eq
  rw [BitVec.toNat_setWidth, toNat_ofNat, toNat_ofNat, mod_eq_of_lt hcap]

theorem toNat_tkipLength_wraps {n : Nat} (h : n < 12) :
    2 ^ 32 - 12 ≤ ((ofNat 16 n).setWidth 32 - 8 - 4).toNat := by
  interval_cases n <;> decide

theorem toNat_tkipTextLength_wraps {n : Nat} (h : n < 8) :
    2 ^ 32 - 8 ≤ (ofNat 32 n - 8).toNat := by
  interval_cases n <;> decide

theorem ofNat_sub_eight (n : Nat) : ofNat 32 (n + 8) - 8 = ofNat 32 n := by
  rw [ofNat_add]
  exact BitVec.add_sub_cancel _ _

theorem ofNat_sub_four (n : Nat) : ofNat 32 (n + 4) - 4 = ofNat 32 n := by
  rw [ofNat_add]
  exact BitVec.add_sub_cancel _ _

theorem length_tkipPlainText : (tkipPlainText hdr key pData).length = pData.length - 8 := by
  rw [tkipPlainText, length_arc4Compute, length_drop]

theorem tkipCheckMic_eq_none {data : List Byte} {n : Nat} {dataByteCnt : BitVec 16} (h : n < 8)
    (hdata : data.length < 2 ^ 16) :
    tkipCheckMic hdr userPriority key data dataByteCnt (ofNat 32 n) = none := by
  have hwrap := toNat_tkipTextLength_wraps h
  have hfetch : fetch data (ofNat 32 n - 8).toNat 8 = none := by
    refine if_neg ?_
    omega
  rw [tkipCheckMic, hfetch]
  rfl

theorem tkipCheckMic_isSome (hdr : Bytes) (userPriority : Byte) (key : TkipKey)
    (dataByteCnt : BitVec 16) {data : List Byte} {n : Nat} (hn : n < 2 ^ 16)
    (h : n + 8 ≤ data.length) :
    ∃ result, tkipCheckMic hdr userPriority key data dataByteCnt (ofNat 32 (n + 8)) =
      some result := by
  have hlen : (ofNat 32 n).toNat = n := by
    rw [toNat_ofNat, mod_eq_of_lt (by omega)]
  obtain ⟨mic, hmic⟩ := isSome_iff_exists.mp (fetch_isSome_iff.mpr h)
  obtain ⟨text, htext⟩ := isSome_iff_exists.mp
    (fetch_isSome_iff.mpr (show 0 + n ≤ data.length by omega))
  rw [tkipCheckMic]
  simp only [bind_eq_bind, ofNat_sub_eight, hlen, hmic, htext, bind_some]
  split
  · exact ⟨_, rfl⟩
  · exact ⟨_, rfl⟩

theorem rtmpSoftDecryptTkip_eq_none (hkey : key.keyLen ≠ 0) (h : pData.length < 12) :
    rtmpSoftDecryptTkip hdr userPriority key pData (ofNat 16 pData.length) = none := by
  rw [← not_isSome_iff_eq_none]
  intro hsome
  obtain ⟨result, hrun⟩ := isSome_iff_exists.mp hsome
  rw [rtmpSoftDecryptTkip, if_neg hkey] at hrun
  obtain ⟨b0, -, hrun⟩ := bind_eq_some_iff.mp hrun
  obtain ⟨b2, -, hrun⟩ := bind_eq_some_iff.mp hrun
  obtain ⟨extIv, -, hrun⟩ := bind_eq_some_iff.mp hrun
  obtain ⟨data, hdecrypt, hrun⟩ := bind_eq_some_iff.mp hrun
  obtain ⟨trail, htrail, -⟩ := bind_eq_some_iff.mp hrun
  -- the check value would have to end inside the body
  have hread := (fetch_eq_some_iff.mp htrail).1
  rw [length_arc4InPlace hdecrypt] at hread
  have hwrap := toNat_tkipLength_wraps h
  omega

theorem rtmpSoftDecryptTkip_eq (hkey : key.keyLen ≠ 0) {n : Nat} (hlen : pData.length = n + 12)
    (hcap : pData.length < 2 ^ 16) [Decidable (TkipIcvMatches hdr key pData)] :
    rtmpSoftDecryptTkip hdr userPriority key pData (ofNat 16 pData.length) =
      let data := tkipPlainText hdr key pData ++ pData.drop (n + 4)
      if TkipIcvMatches hdr key pData then
        tkipCheckMic hdr userPriority key data (ofNat 16 pData.length) (ofNat 32 n)
      else some (false, data, ofNat 16 pData.length) := by
  have htext : (tkipPlainText hdr key pData).length = n + 4 := by
    rw [length_tkipPlainText]
    omega
  -- what is read of IV and extended IV
  have hb0 : pData[0]? = some (pData.getD 0 0) := by
    rw [getElem?_eq_getElem (by omega), getD_eq_getElem _ _ (by omega)]
  have hb2 : pData[2]? = some (pData.getD 2 0) := by
    rw [getElem?_eq_getElem (by omega), getD_eq_getElem _ _ (by omega)]
  have hext : fetch pData 4 4 = some ((pData.drop 4).take 4) :=
    fetch_eq_some_iff.mpr ⟨by omega, rfl⟩
  -- the two lengths do not wrap
  have hcipherLen : (ofNat 16 pData.length).setWidth 32 - 8 = ofNat 32 (n + 4) := by
    rw [setWidth_dataByteCnt hcap, hlen]
    exact ofNat_sub_eight (n + 4)
  have hcipherNat : (ofNat 32 (n + 4)).toNat = (pData.drop 8).length := by
    rw [toNat_ofNat, mod_eq_of_lt (by omega), length_drop]
    omega
  have hplainNat : (ofNat 32 n).toNat = n := by
    rw [toNat_ofNat, mod_eq_of_lt (by omega)]
  -- the plain text is written eight bytes before the cipher text
  have hgap : (pData.take 8).length = 8 := length_take_of_le (by omega)
  have hdecrypt := arc4InPlace_ahead
    (arc4Init (tkipRc4Key hdr key (pData.getD 0 0) (pData.getD 2 0) ((pData.drop 4).take 4)))
    (pData.take 8) (pData.drop 8) []
  rw [hgap] at hdecrypt
  have hdropLen : (pData.drop 8).length = n + 4 := by
    rw [length_drop]
    omega
  simp only [append_nil, take_append_drop] at hdecrypt
  have hplain : fetch (tkipPlainText hdr key pData ++ pData.drop (n + 4)) 0 n =
      some ((tkipPlainText hdr key pData).take n) := by
    refine fetch_eq_some_iff.mpr ⟨?_, ?_⟩
    · rw [length_append]
      omega
    · rw [drop_zero, take_append_of_le_length (by omega)]
  have htrail : fetch (tkipPlainText hdr key pData ++ pData.drop (n + 4)) n 4 =
      some ((tkipPlainText hdr key pData).drop n) := by
    refine fetch_eq_some_iff.mpr ⟨?_, ?_⟩
    · rw [length_append]
      omega
    · rw [drop_append_of_le_length (by omega)]
      exact take_left' (by rw [length_drop]; omega)
  have hmatch : TkipIcvMatches hdr key pData ↔
      frameIcv ((tkipPlainText hdr key pData).take n) =
        le32Word ((tkipPlainText hdr key pData).drop n) := by
    unfold TkipIcvMatches
    dsimp only
    rw [htext, Nat.add_sub_cancel]
  -- the branches of the code with these values
  rw [rtmpSoftDecryptTkip, if_neg hkey, hb0, hb2, hext]
  simp only [bind_eq_bind, bind_some, hcipherLen, hcipherNat, hdecrypt]
  rw [← tkipPlainText, hdropLen]
  simp only [ofNat_sub_four, hplainNat, htrail, hplain, bind_some]
  by_cases hicv : TkipIcvMatches hdr key pData
  · rw [if_pos hicv, if_neg (not_not.mpr (hmatch.mp hicv))]
  · rw [if_neg hicv, if_pos fun heq => hicv (hmatch.mpr heq)]

/-- **TKIP**: a body is decrypted inside the frame exactly if it holds IV, MIC and check value, or
    if it holds IV and check value and the check fails, or if there is no key. -/
theorem tkipStaysInside_iff (hcap : pData.length < 2 ^ 16) : StaysInside 20 pData
        (rtmpSoftDecryptTkip hdr userPriority key pData (ofNat 16 pData.length)) ↔
      key.keyLen = 0 ∨ 20 ≤ pData.length ∨
        (12 ≤ pData.length ∧ ¬TkipIcvMatches hdr key pData) := by
  classical
  by_cases hkey : key.keyLen = 0
  · rw [rtmpSoftDecryptTkip, if_pos hkey]
    exact ⟨fun _ => .inl hkey, fun _ => staysInside_refused⟩
  by_cases hshort : pData.length < 12
  · -- no room for IV and check value
    rw [rtmpSoftDecryptTkip_eq_none hkey hshort]
    constructor
    · exact fun h => absurd h not_staysInside_none
    · rintro (h | h | h)
      · exact absurd h hkey
      · omega
      · exact absurd hshort (Nat.not_lt.mpr h.1)
  obtain ⟨n, hlen⟩ := Nat.exists_eq_add_of_le' (Nat.not_lt.mp hshort)
  rw [rtmpSoftDecryptTkip_eq hkey hlen hcap]
  dsimp only
  have hdata : (tkipPlainText hdr key pData ++ pData.drop (n + 4)).length = n + 12 := by
    rw [length_append, length_tkipPlainText, length_drop]
    omega
  by_cases hicv : TkipIcvMatches hdr key pData
  case neg =>
    -- the check fails, and the MIC is not looked at
    rw [if_neg hicv]
    exact ⟨fun _ => .inr (.inr ⟨by omega, hicv⟩), fun _ => staysInside_refused⟩
  rw [if_pos hicv]
  by_cases htext : n < 8
  · -- the MIC would begin before the body
    rw [tkipCheckMic_eq_none htext (by omega)]
    constructor
    · exact fun h => absurd h not_staysInside_none
    · rintro (h | h | h)
      · exact absurd h hkey
      · omega
      · exact absurd hicv h.2
  · -- text of `m` bytes and the MIC behind it
    obtain ⟨m, rfl⟩ := Nat.exists_eq_add_of_le' (Nat.not_lt.mp htext)
    have hroom : m + 8 ≤ (tkipPlainText hdr key pData ++ pData.drop (m + 8 + 4)).length := by omega
    obtain ⟨result, hresult⟩ := tkipCheckMic_isSome hdr userPriority key
      (ofNat 16 pData.length) (show m < 2 ^ 16 by omega) hroom
    rw [hresult]
    exact ⟨fun _ => .inr (.inl (by omega)), fun _ => staysInside_of_some (by omega)⟩

end

end RalinkSdk.Crypt
