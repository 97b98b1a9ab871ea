import RalinkSdk.Ccmp.SoftCcmp
import RalinkSdk.Crypt.Wep

/-!
# CCMP inside the frame

`AES_CCM_Decrypt` and `RTMPSoftDecryptCCMP` over the body of a received frame, where every byte that
is read or written has to be one of the body: `none` is an access outside it.  Inside it they do
what they do in memory without an end.

## Source

`common/crypt_aes.c`, `common/cmm_aes.c`.
-/

namespace RalinkSdk.Ccmp

open Lib Crypt Option BitVec List
open BitVec (ofNat)

/-! ## The functions -/

/-- A list of bytes as memory from address 0 on. -/
def viewOf (data : List (BitVec 8)) : Bytes := fun i => data.getD i 0

section

variable (E : Block → Block → Block)

/-- The loop over the bytes of a block. -/
def xorBytesIn (data : List (BitVec 8)) (dst src : Nat) (ks : Block) :
    Nat → Option (List (BitVec 8))
  | 0 => some data
  | n + 1 => do
    let data ← xorBytesIn data dst src ks n
    let b ← data[src + n]?
    put data (dst + n) [b ^^^ ks (Fin.ofNat 16 n)]

/-- The loop of `AES_CCM_Decrypt` over the payload. -/
def cipherLoopIn (key : Block) (dst src length : Nat) (ctr : Block) (data : List (BitVec 8))
    (index : Nat) : Option (List (BitVec 8)) :=
  if index < length then do
    let ctr := nextCounter ctr
    let n := min (length - index) 16
    let data ← xorBytesIn data (dst + index) (src + index) (E key ctr) n
    cipherLoopIn key dst src length ctr data (index + n)
  else some data
termination_by length - index

def aesCcmDecryptIn (data : List (BitVec 8)) (cipher : Nat) (cipherLength : BitVec 32)
    (key : Block) (keyLength : Nat) (nonce aad : List (BitVec 8)) (macLength plain : Nat)
    (plainLength : BitVec 32) : Option (Int × List (BitVec 8) × BitVec 32) :=
  let length := cipherLength - ofNat 32 macLength
  if keyLength ≠ 16 then some (-1, data, plainLength)
  else if nonce.length < 7 ∨ 13 < nonce.length then some (-2, data, plainLength)
  else if macLength ∉ macLengths then some (-3, data, plainLength)
  else if plainLength < length then some (-4, data, plainLength)
  else do
    let ctr := formatCounter nonce
    let sent ← fetch data (cipher + length.toNat) macLength
    let macFromCipher : Block := fun i => sent.getD i 0 ^^^ E key ctr i
    let data ← cipherLoopIn E key plain cipher length.toNat ctr data 0
    let payload ← fetch data plain length.toNat
    let mac := aesCcmMac E (viewOf payload) length.toNat key nonce aad macLength
    some (if sameBytes macFromCipher mac macLength then (0, data, length) else (-5, data, length))

def rtmpSoftDecryptCcmpIn (hdr : Bytes) (key : CipherKey) (pData : List (BitVec 8))
    (dataLen : BitVec 16) : Option (Bool × List (BitVec 8) × BitVec 16) :=
  if key.keyLen = 0 then some (false, pData, dataLen)
  else do
    let low ← fetch pData 0 2
    let high ← fetch pData 4 4
    let pn := viewOf (low ++ high)
    let (ret, pData, outLen) ← aesCcmDecryptIn E pData 8 (dataLen.setWidth 32 - 8) key.key 16
      (nonceOf hdr pn) (aadOf hdr) 8 0 (dataLen.setWidth 32)
    some (if ret = 0 then (true, pData, outLen.setWidth 16) else (false, pData, dataLen))

end

/-! ## Lists as memory -/

section

variable {data data' : List (BitVec 8)} {i n : Nat} {b : BitVec 8}

theorem getElem?_eq_viewOf (h : i < data.length) : data[i]? = some (viewOf data i) := by
  rw [viewOf, getD_eq_getElem _ _ h, List.getElem?_eq_getElem h]

theorem viewOf_put (h : put data i [b] = some data') :
    viewOf data' = Function.update (viewOf data) i b := by
  obtain ⟨hroom, rfl⟩ := put_eq_some_iff.mp h
  have hi : i < data.length := hroom
  have hset : data.take i ++ ([b] ++ data.drop (i + [b].length)) = data.set i b := by
    rw [set_eq_take_append_cons_drop, if_pos hi]
    rfl
  rw [hset]
  funext j
  by_cases hj : j = i
  · subst hj
    simp [viewOf, hi]
  · rw [Function.update_of_ne hj]
    simp [viewOf, Ne.symm hj]

theorem viewOf_fetch (h : fetch data i n = some data') {j : Nat} (hj : j < n) :
    viewOf data' j = viewOf data (i + j) := by
  obtain ⟨hroom, rfl⟩ := fetch_eq_some_iff.mp h
  simp [viewOf, List.getElem?_drop, hj]

end

/-! ## The loops inside a body -/

section

variable (E : Block → Block → Block) {data : List (BitVec 8)} {dst src n : Nat}

/-- **One block** inside the body. -/
theorem xorBytesIn_eq (data : List (BitVec 8)) (dst src n : Nat) (ks : Block)
    (hsrc : src + n ≤ data.length) (hdst : dst + n ≤ data.length) :
    ∃ data', xorBytesIn data dst src ks n = some data' ∧ data'.length = data.length ∧
      viewOf data' = xorBytes (viewOf data) dst src ks n := by
  induction n with
  | zero => exact ⟨data, rfl, rfl, rfl⟩
  | succ n ih =>
    obtain ⟨data₁, hrun, hlen, hview⟩ := ih (by omega) (by omega)
    have hread : data₁[src + n]? = some (viewOf data₁ (src + n)) :=
      getElem?_eq_viewOf (by omega)
    obtain ⟨data₂, hput⟩ := isSome_iff_exists.mp (put_isSome_iff.mpr
      (show dst + n + [viewOf data₁ (src + n) ^^^ ks (Fin.ofNat 16 n)].length ≤ data₁.length by
        rw [length_singleton]
        omega))
    refine ⟨data₂, ?_, by rw [length_put hput, hlen], ?_⟩
    · rw [xorBytesIn, hrun]
      simp only [bind_eq_bind, bind_some, hread]
      exact hput
    · rw [viewOf_put hput, hview, xorBytes]

/-- **All blocks** inside the body. -/
theorem cipherLoopIn_eq (key ctr : Block) {length index : Nat} (hindex : index ≤ length)
    (hsrc : src + length ≤ data.length) (hdst : dst + length ≤ data.length) :
    ∃ data', cipherLoopIn E key dst src length ctr data index = some data' ∧
      data'.length = data.length ∧
      viewOf data' = cipherLoop E key dst src length ctr (viewOf data) index := by
  induction hk : length - index using Nat.strong_induction_on generalizing index ctr data with
  | _ k ih =>
    rw [cipherLoopIn, cipherLoop]
    by_cases hlt : index < length
    · rw [if_pos hlt, if_pos hlt]
      obtain ⟨data₁, hrun, hlen, hview⟩ := xorBytesIn_eq data (dst + index) (src + index)
        (min (length - index) 16) (E key (nextCounter ctr)) (by omega) (by omega)
      rw [← hlen] at hsrc hdst
      have hindex' : index + min (length - index) 16 ≤ length := by omega
      obtain ⟨data₂, hrest, hlen', hview'⟩ := ih (length - (index + min (length - index) 16))
        (by omega) (nextCounter ctr) hindex' hsrc hdst rfl
      refine ⟨data₂, ?_, hlen'.trans hlen, ?_⟩
      · simp only [bind_eq_bind, hrun, bind_some]
        exact hrest
      · rw [hview', hview]
    · rw [if_neg hlt, if_neg hlt]
      exact ⟨data, rfl, rfl, rfl⟩

end

/-! ## Decryption inside a body -/

section

variable (E : Block → Block → Block) {hdr : Bytes} {key : CipherKey} {pData : List (BitVec 8)}

/-- **`AES_CCM_Decrypt`** inside a body that holds cipher text and MIC does what it does in memory
    without an end. -/
theorem aesCcmDecryptIn_eq {data : List (BitVec 8)} {cipher plain : Nat} {cipherLength : BitVec 32}
    (key : Block) (keyLength : Nat) (nonce aad : List (BitVec 8)) (macLength : Nat)
    (plainLength : BitVec 32) (hle : plain ≤ cipher)
    (hroom : ¬plainLength < cipherLength - ofNat 32 macLength →
      cipher + (cipherLength - ofNat 32 macLength).toNat + macLength ≤ data.length) :
    ∃ data', aesCcmDecryptIn E data cipher cipherLength key keyLength nonce aad macLength plain
        plainLength =
          some ((aesCcmDecrypt E (viewOf data) cipher cipherLength key keyLength nonce aad macLength
            plain plainLength).1, data',
            (aesCcmDecrypt E (viewOf data) cipher cipherLength key keyLength nonce aad macLength
              plain plainLength).2.2) ∧
      viewOf data' = (aesCcmDecrypt E (viewOf data) cipher cipherLength key keyLength nonce aad
        macLength plain plainLength).2.1 := by
  unfold aesCcmDecryptIn aesCcmDecrypt
  dsimp only
  by_cases hkeyLen : keyLength ≠ 16
  · rw [if_pos hkeyLen, if_pos hkeyLen]
    exact ⟨data, rfl, rfl⟩
  by_cases hnonce : nonce.length < 7 ∨ 13 < nonce.length
  · rw [if_neg hkeyLen, if_neg hkeyLen, if_pos hnonce, if_pos hnonce]
    exact ⟨data, rfl, rfl⟩
  by_cases hmac : macLength ∉ macLengths
  · rw [if_neg hkeyLen, if_neg hkeyLen, if_neg hnonce, if_neg hnonce, if_pos hmac, if_pos hmac]
    exact ⟨data, rfl, rfl⟩
  rw [if_neg hkeyLen, if_neg hkeyLen, if_neg hnonce, if_neg hnonce, if_neg hmac, if_neg hmac]
  by_cases hshort : plainLength < cipherLength - ofNat 32 macLength
  · rw [if_pos hshort, if_pos hshort]
    exact ⟨data, rfl, rfl⟩
  rw [if_neg hshort, if_neg hshort]
  generalize cipherLength - ofNat 32 macLength = length at hroom hshort ⊢
  have hin := hroom hshort
  obtain ⟨sent, hsent⟩ := isSome_iff_exists.mp (fetch_isSome_iff.mpr hin)
  have hsrc : cipher + length.toNat ≤ data.length := by omega
  have hdst : plain + length.toNat ≤ data.length := by omega
  obtain ⟨data', hloop, hlen, hview⟩ :=
    cipherLoopIn_eq E key (formatCounter nonce) (Nat.zero_le length.toNat) hsrc hdst
  obtain ⟨payload, hpayload⟩ := isSome_iff_exists.mp
    (fetch_isSome_iff.mpr (show plain + length.toNat ≤ data'.length by omega))
  -- both MACs are made of the same bytes
  have hsame : sameBytes (fun i => sent.getD i 0 ^^^ E key (formatCounter nonce) i)
      (aesCcmMac E (viewOf payload) length.toNat key nonce aad macLength) macLength =
        sameBytes (fun i => viewOf data (cipher + length.toNat + i) ^^^
            E key (formatCounter nonce) i)
          (aesCcmMac E (Bytes.at (cipherLoop E key plain cipher length.toNat (formatCounter nonce)
            (viewOf data) 0) plain) length.toNat key nonce aad macLength) macLength := by
    refine sameBytes_congr (fun i hi => ?_) fun i _ => congrFun ?_ i
    · rw [← viewOf_fetch hsent hi]
      rfl
    · refine aesCcmMac_congr E (fun j hj => ?_) key nonce aad macLength
      rw [viewOf_fetch hpayload hj, hview]
      rfl
  rw [hsent]
  simp only [bind_eq_bind, bind_some, hloop, hpayload, hsame]
  split
  · exact ⟨data', rfl, hview⟩
  · exact ⟨data', rfl, hview⟩

theorem viewOf_pn {low high : List (BitVec 8)} (hlow : fetch pData 0 2 = some low)
    (hhigh : fetch pData 4 4 = some high) :
    ∀ i < 6, viewOf (low ++ high) i = pnOf ((viewOf pData).at 0) i := by
  intro i hi
  have hlen := length_fetch hlow
  rw [pnOf, Bytes.at, Bytes.at]
  by_cases hfirst : i < 2
  · rw [if_pos hfirst, ← viewOf_fetch hlow hfirst, viewOf, viewOf,
      getD_append _ _ _ _ (by omega)]
  · have hindex : 0 + (i + 2) = 4 + (i - low.length) := by omega
    rw [if_neg hfirst, hindex, ← viewOf_fetch hhigh (by omega), viewOf, viewOf,
      getD_append_right _ _ _ _ (by omega)]

theorem toNat_ccmpLength {n : Nat} (h : 16 ≤ n) (hcap : n < 2 ^ 16) :
    ((ofNat 16 n).setWidth 32 - 8 - ofNat 32 8).toNat = n - 16 := by
  simp only [toNat_sub, toNat_setWidth, toNat_ofNat, reduceToNat]
  omega

theorem ccmpLength_refused {n : Nat} (h : n < 16) : (ofNat 16 n).setWidth 32 <
      (ofNat 16 n).setWidth 32 - 8 - ofNat 32 8 := by
  interval_cases n <;> decide

/-- **Inside the frame**: a body that holds the CCMP header is decrypted as in memory without an
    end. -/
theorem rtmpSoftDecryptCcmpIn_eq (hdr : Bytes) (key : CipherKey) (hcap : pData.length < 2 ^ 16)
    (hlen : 8 ≤ pData.length) :
    ∃ data', rtmpSoftDecryptCcmpIn E hdr key pData (ofNat 16 pData.length) =
        some ((rtmpSoftDecryptCcmp E hdr key (viewOf pData) 0 (ofNat 16 pData.length)).1,
          data',
          (rtmpSoftDecryptCcmp E hdr key (viewOf pData) 0 (ofNat 16 pData.length)).2.2) ∧
      viewOf data' =
        (rtmpSoftDecryptCcmp E hdr key (viewOf pData) 0 (ofNat 16 pData.length)).2.1 := by
  unfold rtmpSoftDecryptCcmpIn rtmpSoftDecryptCcmp
  by_cases hkey : key.keyLen = 0
  · rw [if_pos hkey, if_pos hkey]
    exact ⟨pData, rfl, rfl⟩
  rw [if_neg hkey, if_neg hkey]
  obtain ⟨low, hlow⟩ := isSome_iff_exists.mp
    (fetch_isSome_iff.mpr (show 0 + 2 ≤ pData.length by omega))
  obtain ⟨high, hhigh⟩ := isSome_iff_exists.mp
    (fetch_isSome_iff.mpr (show 4 + 4 ≤ pData.length by omega))
  have hnonce := nonceOf_congr hdr (viewOf_pn hlow hhigh)
  -- a length that wraps is more than the room, and refused
  have hroom : ¬(ofNat 16 pData.length).setWidth 32 <
      (ofNat 16 pData.length).setWidth 32 - 8 - ofNat 32 8 →
      8 + ((ofNat 16 pData.length).setWidth 32 - 8 - ofNat 32 8).toNat + 8 ≤
        pData.length := by
    intro hpass
    by_cases hshort : pData.length < 16
    · exact absurd (ccmpLength_refused hshort) hpass
    · rw [toNat_ccmpLength (Nat.not_lt.mp hshort) hcap]
      omega
  obtain ⟨data', hrun, hview⟩ := aesCcmDecryptIn_eq E key.key 16
    (nonceOf hdr (pnOf ((viewOf pData).at 0))) (aadOf hdr) 8
    ((ofNat 16 pData.length).setWidth 32) (Nat.zero_le 8) hroom
  rw [hlow, hhigh]
  simp only [bind_eq_bind, bind_some, hnonce, hrun]
  split
  · exact ⟨data', rfl, hview⟩
  · exact ⟨data', rfl, hview⟩

theorem rtmpSoftDecryptCcmp_refused {mem : Bytes} {p n : Nat} (h : n < 16) :
    (rtmpSoftDecryptCcmp E hdr key mem p (ofNat 16 n)).1 = false := by
  by_cases hkey : key.keyLen = 0
  · rw [rtmpSoftDecryptCcmp, if_pos hkey]
  have hrefused : aesCcmDecrypt E mem (p + 8) ((ofNat 16 n).setWidth 32 - 8) key.key 16
      (nonceOf hdr (pnOf (mem.at p))) (aadOf hdr) 8 p ((ofNat 16 n).setWidth 32) =
        (-4, mem, (ofNat 16 n).setWidth 32) := by
    unfold aesCcmDecrypt
    dsimp only
    rw [nonceOf_length, if_neg (by decide), if_neg (by decide), if_neg (by decide),
      if_pos (ccmpLength_refused h)]
  rw [rtmpSoftDecryptCcmp, if_neg hkey]
  dsimp only
  rw [hrefused]
  rfl

/-- **CCMP**: a body is decrypted inside the frame exactly if it holds the CCMP header, or if there
    is no key. -/
theorem ccmpStaysInside_iff (hcap : pData.length < 2 ^ 16) : StaysInside 16 pData
        (rtmpSoftDecryptCcmpIn E hdr key pData (ofNat 16 pData.length)) ↔
      key.keyLen = 0 ∨ 8 ≤ pData.length := by
  constructor
  case mp =>
    rintro ⟨ok, out, n, hrun, -⟩
    by_cases hkey : key.keyLen = 0
    · exact .inl hkey
    · rw [rtmpSoftDecryptCcmpIn, if_neg hkey] at hrun
      obtain ⟨low, -, hrun⟩ := bind_eq_some_iff.mp hrun
      obtain ⟨high, hhigh, -⟩ := bind_eq_some_iff.mp hrun
      exact .inr (fetch_eq_some_iff.mp hhigh).1
  case mpr =>
    rintro (hkey | hlen)
    · rw [rtmpSoftDecryptCcmpIn, if_pos hkey]
      exact staysInside_refused
    · obtain ⟨data', hrun, -⟩ := rtmpSoftDecryptCcmpIn_eq E hdr key hcap hlen
      rw [hrun]
      exact ⟨_, _, _, rfl, fun hshort => rtmpSoftDecryptCcmp_refused E hshort⟩

end

end RalinkSdk.Ccmp
