import RalinkSdk.Wpa.Honest

/-!
# The key data of messages with a group key

What `RTMPParseEapolKeyData` finds in the key data that `ConstructEapolKeyData` has made.  In front
of the AES key wrap the elements are padded with `DD 00 ..`.  The parser takes two or three bytes of
padding for an element and looks for its OUI behind them, in memory that nobody has written.
-/

namespace RalinkSdk.Wpa

open Lib Crypt List Nat Option
open BitVec (ofNat toNat_ofNat)

variable (c : Crypto)

/-! ## Decryption -/

/-- The text of the key data: the elements, padded in front of the AES key wrap. -/
def paddedKeyData (m : MsgParams) : List Byte :=
  plainKeyData m ++
    if keyDescVerOf m.wepStatus m.groupCipher = keyDescAes then keyDataPad (plainKeyData m).length
    else []

theorem builtKeyData_of_gtkIncluded (m : MsgParams) (hgtk : m.gtkIncluded = true) :
    m.builtKeyData c =
      if keyDescVerOf m.wepStatus m.groupCipher = keyDescAes then
        aesKeyWrap (c.aesEncrypt (kek m.ptk)) (paddedKeyData m)
      else tkipGtkKeyWrap (kek m.ptk) (beBytes 16 m.keyIv) (paddedKeyData m) := by
  have htype : ¬ (m.msgType = .pair1 ∨ m.msgType = .pair4 ∨ m.msgType = .group2) := by
    rintro (h | h | h) <;> simp [MsgParams.gtkIncluded, h] at hgtk
  unfold MsgParams.builtKeyData constructEapolKeyData paddedKeyData
  rw [if_neg htype, if_pos hgtk]
  split_ifs
  · rfl
  · rw [append_nil]

theorem length_keyDataPad (n : Nat) : (keyDataPad n).length < 8 := by
  unfold keyDataPad
  split_ifs
  · simp
  · simp only [length_cons, length_replicate]
    omega

theorem length_builtKeyData (m : MsgParams) (hgtk : m.gtkIncluded = true) :
    (m.builtKeyData c).length ≤ (plainKeyData m).length + 15 := by
  have hpad := length_keyDataPad (plainKeyData m).length
  rw [builtKeyData_of_gtkIncluded c m hgtk]
  split_ifs with hver
  · rw [length_aesKeyWrap, paddedKeyData, if_pos hver, length_append]
    omega
  · rw [tkipGtkKeyWrap, length_arc4Compute, paddedKeyData, if_neg hver, append_nil]
    omega

/-- **Decryption**: the supplicant reads the text that the authenticator has encrypted under the same
    PTK. -/
theorem decryptKeyData_built (m : MsgParams) (e : Entry) (hgtk : m.gtkIncluded = true)
    (hptk : e.ptk = m.ptk) (hlen : (plainKeyData m).length < 2 ^ 15) :
    decryptKeyData c e (constructEapolMsg c m) = paddedKeyData m := by
  have hbuilt := length_builtKeyData c m hgtk
  have htake : ((constructEapolMsg c m).keyData.take (constructEapolMsg c m).keyDataLen.toNat) =
      m.builtKeyData c := by
    rw [constructEapolMsg_keyData, constructEapolMsg_keyDataLen, toNat_ofNat,
      mod_eq_of_lt (by omega), take_length]
  have hver : (constructEapolMsg c m).keyInfo.keyDescVer =
      keyDescVerOf m.wepStatus m.groupCipher := by
    rw [constructEapolMsg_keyInfo]
    rfl
  unfold decryptKeyData
  dsimp only
  rw [htake, hver, hptk, constructEapolMsg_keyIv, builtKeyData_of_gtkIncluded c m hgtk]
  split_ifs
  · exact aesKeyUnwrap_wrap (c.aesDecrypt_encrypt _) _
  · exact arc4Compute_involutive _ _

/-! ## Memory with a text at its start -/

section

variable {text : List Byte} {mem : Nat → Byte}

theorem memWith_eq_getElem {i : Nat} (h : i < text.length) : memWith text mem i = text[i] := by
  rw [memWith, if_pos h, getD_eq_getElem?_getD, getElem?_eq_getElem h, getD_some]

theorem memWith_append_left {rest : List Byte} {i : Nat} (h : i < text.length) :
    memWith (text ++ rest) mem i = text[i] := by
  rw [memWith_eq_getElem (by rw [length_append]; omega), getElem_append_left h]

theorem memWith_append_right {rest : List Byte} {i : Nat} :
    memWith (text ++ rest) mem (text.length + i) =
      memWith rest (fun j => mem (text.length + j)) i := by
  unfold memWith
  rcases lt_or_ge i rest.length with hi | hi
  · rw [if_pos (by rw [length_append]; omega), if_pos hi, getD_append_right _ _ _ _ (by omega),
      Nat.add_sub_cancel_left]
  · rw [if_neg (by rw [length_append]; omega), if_neg (by omega)]

theorem bytesAt_memWith (text : List Byte) (mem : Nat → Byte) (rest : List Byte) :
    bytesAt (memWith (text ++ rest) mem) 0 text.length = text := by
  apply ext_getElem
  · simp [bytesAt]
  · intro i h1 h2
    simp only [bytesAt, getElem_map, getElem_range, Nat.zero_add]
    exact memWith_append_left h2

end

/-! ## The parser -/

theorem scanKde_succ (mem : Nat → Byte) (n fuel o : Nat) (acc : KdeScan) :
    scanKde mem n (fuel + 1) o acc =
      if o + 2 + (mem (o + 1)).toNat ≤ n then
        if mem o = 0xdd ∧ bytesAt mem (o + 2) 3 = [0x00, 0x0f, 0xac] ∧ mem (o + 5) = 0x01 then
          if ((mem (o + 1)).toNat + 256 - 6) % 256 < 5 then .refused
          else if 32 < ((mem (o + 1)).toNat + 256 - 6) % 256 then .overflow
          else scanKde mem n fuel (o + 2 + (mem (o + 1)).toNat)
            (.found (bytesAt mem (o + 8) (((mem (o + 1)).toNat + 256 - 6) % 256))
              (((mem (o + 1)).toNat + 256 - 6) % 256) ((mem (o + 6)).toNat % 4))
        else scanKde mem n fuel (o + 2 + (mem (o + 1)).toNat) acc
      else acc := rfl

theorem scanKde_shift (mem : Nat → Byte) (k n fuel o : Nat) (acc : KdeScan) :
    scanKde mem (k + n) fuel (k + o) acc = scanKde (fun j => mem (k + j)) n fuel o acc := by
  have hbytes : ∀ i l, bytesAt mem (k + i) l = bytesAt (fun j => mem (k + j)) i l := by
    intro i l
    simp only [bytesAt, Nat.add_assoc]
  induction fuel generalizing o acc with
  | zero => rfl
  | succ fuel ih =>
    rw [scanKde_succ, scanKde_succ]
    simp only [Nat.add_assoc k, ih, hbytes, Nat.add_le_add_iff_left]

theorem scanKde_rest (elem rest : List Byte) (mem : Nat → Byte) (n fuel : Nat) (acc : KdeScan) :
    scanKde (memWith (elem ++ rest) mem) (elem.length + n) fuel elem.length acc =
      scanKde (memWith rest fun j => mem (elem.length + j)) n fuel 0 acc := by
  have hshift := scanKde_shift (memWith (elem ++ rest) mem) elem.length n fuel 0 acc
  rw [Nat.add_zero] at hshift
  rw [hshift]
  congr 1
  funext j
  exact memWith_append_right

theorem scanKde_skip {t : Byte} (ht : t ≠ 0xdd) (body : List Byte) (hlen : body.length < 256)
    (rest : List Byte) (mem : Nat → Byte) (n fuel : Nat) (acc : KdeScan) :
    scanKde (memWith ((t :: ofNat 8 body.length :: body) ++ rest) mem)
        ((t :: ofNat 8 body.length :: body).length + n) (fuel + 1) 0 acc =
      scanKde (memWith rest fun j => mem ((t :: ofNat 8 body.length :: body).length + j)) n
        fuel 0 acc := by
  set elem := t :: ofNat 8 body.length :: body with helem
  have htype : memWith (elem ++ rest) mem 0 = t := rfl
  have hbody : (memWith (elem ++ rest) mem (0 + 1)).toNat = body.length := by
    rw [memWith_append_left (i := 0 + 1) (by simp [helem])]
    simp [helem, mod_eq_of_lt hlen]
  have hsize : 0 + 2 + body.length = elem.length := by
    simp [helem]
    omega
  rw [scanKde_succ, htype, if_neg (c := t = 0xdd ∧ _) fun h => ht h.1, hbody, hsize,
    if_pos (Nat.le_add_right _ _)]
  exact scanKde_rest elem rest mem n fuel acc

/-- The element with the group key. -/
def gtkKde (keyIdx : Byte) (gtk : List Byte) : List Byte :=
  gtkKdeHdr (2 + gtk.length) ++ [keyIdx, 0x00] ++ gtk

theorem scanKde_gtk (keyIdx : Byte) {gtk : List Byte} (hmin : 5 ≤ gtk.length)
    (hmax : gtk.length ≤ 32) (rest : List Byte) (mem : Nat → Byte) (n fuel : Nat) (acc : KdeScan) :
    scanKde (memWith (gtkKde keyIdx gtk ++ rest) mem) ((gtkKde keyIdx gtk).length + n) (fuel + 1) 0 acc =
      scanKde (memWith rest fun j => mem ((gtkKde keyIdx gtk).length + j)) n fuel 0
        (.found gtk gtk.length (keyIdx.toNat % 4)) := by
  set elem := gtkKde keyIdx gtk with helem
  have hlist : elem = [0xdd, ofNat 8 (4 + (2 + gtk.length)), 0x00, 0x0f, 0xac, 0x01, keyIdx,
      0x00] ++ gtk := rfl
  have hsize : elem.length = 8 + gtk.length := by
    rw [hlist, length_append]
    rfl
  have hlen : (memWith (elem ++ rest) mem (0 + 1)).toNat = 6 + gtk.length := by
    have hbyte : memWith (elem ++ rest) mem (0 + 1) = ofNat 8 (4 + (2 + gtk.length)) := rfl
    rw [hbyte, toNat_ofNat, mod_eq_of_lt (by omega)]
    omega
  have hkey : bytesAt (memWith (elem ++ rest) mem) (0 + 8) gtk.length = gtk := by
    apply ext_getElem
    · simp [bytesAt]
    · intro i h1 h2
      simp only [bytesAt, getElem_map, getElem_range, Nat.zero_add]
      rw [memWith_append_left (by omega)]
      simp only [hlist]
      rw [getElem_append_right (by simp)]
      simp
  rw [scanKde_succ, hlen, show (6 + gtk.length + 256 - 6) % 256 = gtk.length by omega, hkey,
    show 0 + 2 + (6 + gtk.length) = elem.length by omega, if_pos (Nat.le_add_right _ _),
    if_pos ⟨rfl, rfl, rfl⟩, if_neg (by omega), if_neg (by omega)]
  exact scanKde_rest elem rest mem n fuel _

/-! ## The padding -/

theorem scanKde_zeros (k fuel : Nat) (mem : Nat → Byte) (acc : KdeScan) :
    scanKde (memWith (replicate k 0) mem) k fuel 0 acc = acc := by
  induction fuel generalizing k mem with
  | zero => rfl
  | succ fuel ih =>
    match k with
    | 0 =>
      rw [scanKde_succ, if_neg (by omega)]
    | 1 =>
      rw [scanKde_succ, if_neg (by omega)]
    | k + 2 =>
      have hskip := scanKde_skip (t := 0) (by decide) [] (by decide) (replicate k 0) mem k fuel
        acc
      have hlist : replicate (k + 2) (0 : Byte) =
        [0, ofNat 8 0] ++ replicate k 0 := rfl
      rw [hlist, Nat.add_comm k 2]
      exact hskip.trans (ih k _)

/-- Two or three bytes of padding are taken for an element, and the memory behind them for its OUI
    and type. -/
def ReadsAsGtk (n : Nat) (mem : Nat → Byte) : Prop :=
  (n % 8 = 6 ∧ mem 2 = 0x00 ∧ mem 3 = 0x0f ∧ mem 4 = 0xac ∧ mem 5 = 0x01) ∨
    (n % 8 = 5 ∧ mem 3 = 0x0f ∧ mem 4 = 0xac ∧ mem 5 = 0x01)

theorem scanKde_pad_element (k fuel : Nat) (mem : Nat → Byte) (acc : KdeScan) :
    scanKde (memWith (0xdd :: 0 :: replicate k 0) mem) (2 + k) (fuel + 1) 0 acc =
      if bytesAt (memWith (0xdd :: 0 :: replicate k 0) mem) 2 3 = [0x00, 0x0f, 0xac] ∧
          memWith (0xdd :: 0 :: replicate k 0) mem 5 = 0x01 then .overflow else acc := by
  set pad : List Byte := 0xdd :: 0 :: replicate k 0 with hpad
  have hlen : (memWith pad mem (0 + 1)).toNat = 0 := rfl
  have hrest : scanKde (memWith pad mem) (2 + k) fuel (0 + 2 + 0) acc = acc :=
    (scanKde_rest [0xdd, 0] (replicate k 0) mem k fuel acc).trans (scanKde_zeros k fuel _ acc)
  rw [scanKde_succ, hlen, hrest, if_pos (by omega)]
  have htype : memWith pad mem 0 = 0xdd := rfl
  simp only [htype, true_and]
  rfl

/-- That element reads as the header of a group key. -/
def PadHeader (k : Nat) (mem : Nat → Byte) : Prop :=
  bytesAt (memWith (0xdd :: 0 :: replicate k 0) mem) 2 3 = [0x00, 0x0f, 0xac] ∧
    memWith (0xdd :: 0 :: replicate k 0) mem 5 = 0x01

theorem padHeader_zero_iff (mem : Nat → Byte) :
    PadHeader 0 mem ↔ mem 2 = 0x00 ∧ mem 3 = 0x0f ∧ mem 4 = 0xac ∧ mem 5 = 0x01 := by
  simp [PadHeader, bytesAt, memWith, range_succ, and_assoc]

theorem padHeader_one_iff (mem : Nat → Byte) :
    PadHeader 1 mem ↔ mem 3 = 0x0f ∧ mem 4 = 0xac ∧ mem 5 = 0x01 := by
  simp [PadHeader, bytesAt, memWith, range_succ, and_assoc]

theorem not_padHeader (k : Nat) (mem : Nat → Byte) : ¬ PadHeader (k + 2) mem := by
  rintro ⟨h, -⟩
  have hzero : memWith (0xdd :: 0 :: replicate (k + 2) 0) mem 3 = 0 := by
    simp [memWith, replicate_succ]
  have hthird : memWith (0xdd :: 0 :: replicate (k + 2) 0) mem 3 = 0x0f := by
    have hget := congrArg (fun l => l.getD 1 0) h
    simpa [bytesAt, range_succ] using hget
  rw [hzero] at hthird
  exact absurd hthird (by decide)

theorem readsAsGtk_iff {n k : Nat} (h : n % 8 + k = 6) (mem : Nat → Byte) :
    ReadsAsGtk n mem ↔ PadHeader k mem := by
  match k with
  | 0 =>
    rw [padHeader_zero_iff, ReadsAsGtk, or_iff_left fun h' => by omega,
      and_iff_right (by omega : n % 8 = 6)]
  | 1 =>
    rw [padHeader_one_iff, ReadsAsGtk, or_iff_right fun h' => by omega,
      and_iff_right (by omega : n % 8 = 5)]
  | k + 2 =>
    refine iff_of_false ?_ (not_padHeader k mem)
    rintro (⟨h', -⟩ | ⟨h', -⟩) <;> omega

/-- **The padding** is skipped, unless the memory behind it reads as the header of a group key:
    then 250 bytes are copied to a buffer of 32. -/
theorem scanKde_padding (n fuel : Nat) (mem : Nat → Byte) (acc : KdeScan) : (ReadsAsGtk n mem →
      scanKde (memWith (keyDataPad n) mem) (keyDataPad n).length (fuel + 1) 0 acc = .overflow) ∧
    (¬ ReadsAsGtk n mem →
      scanKde (memWith (keyDataPad n) mem) (keyDataPad n).length (fuel + 1) 0 acc = acc) := by
  have hlt : n % 8 < 8 := mod_lt _ (by decide)
  rcases (by omega : n % 8 = 0 ∨ n % 8 = 7 ∨ n % 8 ≤ 6 ∧ n % 8 ≠ 0) with h | h | ⟨hle, hpos⟩
  · have hnot : ¬ ReadsAsGtk n mem := by
      rintro (⟨h', -⟩ | ⟨h', -⟩) <;> omega
    refine ⟨fun hr => absurd hr hnot, fun _ => ?_⟩
    rw [keyDataPad, if_pos h]
    exact scanKde_zeros 0 (fuel + 1) mem acc
  · have hnot : ¬ ReadsAsGtk n mem := by
      rintro (⟨h', -⟩ | ⟨h', -⟩) <;> omega
    refine ⟨fun hr => absurd hr hnot, fun _ => ?_⟩
    rw [keyDataPad, if_neg (by omega), h, scanKde_succ, if_neg]
    simp only [Nat.reduceSub, replicate_zero, length_singleton]
    omega
  · obtain ⟨k, hk⟩ := Nat.exists_eq_add_of_le hle
    have hpad : keyDataPad n = 0xdd :: 0 :: replicate k 0 := by
      rw [keyDataPad, if_neg hpos, show 8 - n % 8 - 1 = k + 1 by omega, replicate_succ]
    have hlen : (keyDataPad n).length = 2 + k := by
      rw [hpad]
      simp
      omega
    rw [hlen, hpad, scanKde_pad_element, readsAsGtk_iff hk.symm]
    exact ⟨fun hr => if_pos hr, fun hr => if_neg hr⟩

/-! ## Message 3 of WPA2 -/

section

variable {m : MsgParams}

/-- The group key that a message carries. -/
def MsgParams.sentGtk (m : MsgParams) : List Byte := m.gtk.take (gtkLen m.groupCipher)

theorem length_sentGtk (h : m.gtk.length = 32) : m.sentGtk.length = gtkLen m.groupCipher := by
  rw [MsgParams.sentGtk, length_take, h]
  unfold gtkLen
  split_ifs <;> rfl

theorem gtkLen_bounds (groupCipher : WepStatus) : 5 ≤ gtkLen groupCipher ∧ gtkLen groupCipher ≤ 32 := by
  unfold gtkLen
  split_ifs <;> decide

variable (htype : m.msgType = .pair3) (hwpa2 : m.wpa2 = true)
  (hrsn : (m.rsnIe.drop 2).take 3 = [0x00, 0x0f, 0xac])

include htype hwpa2 hrsn

theorem plainKeyData_message3 (hgtk : m.gtk.length = 32) :
    plainKeyData m = (0x30 :: ofNat 8 m.rsnIe.length :: m.rsnIe) ++
      gtkKde (ofNat 8 (m.defaultKeyIdx % 4)) m.sentGtk := by
  have hne : m.rsnIe ≠ [] := by
    intro h
    rw [h] at hrsn
    exact absurd hrsn (by decide)
  have hincluded : m.gtkIncluded = true := by simp [MsgParams.gtkIncluded, htype, hwpa2]
  unfold plainKeyData rtmpInsertRSNIE gtkKde
  rw [if_pos ⟨hne, .inr htype⟩, if_pos hincluded, if_pos hwpa2, if_pos hrsn, length_sentGtk hgtk]
  rfl

theorem length_plainKeyData_message3 (hgtk : m.gtk.length = 32) :
    (plainKeyData m).length = m.rsnIe.length + gtkLen m.groupCipher + 10 := by
  rw [plainKeyData_message3 htype hwpa2 hrsn hgtk, ← length_sentGtk hgtk]
  simp only [gtkKde, gtkKdeHdr, length_append, length_cons, length_nil]
  omega

/-- The memory behind the elements of an AES key wrap reads as the header of a group key. -/
def MsgParams.Misread (m : MsgParams) (mem : Nat → Byte) : Prop :=
  keyDescVerOf m.wepStatus m.groupCipher = keyDescAes ∧
    ReadsAsGtk (plainKeyData m).length fun j => mem ((plainKeyData m).length + j)

/-- **The parser finds the group key** of message 3, unless it misreads the padding. -/
theorem scanKde_message3 (hlen : m.rsnIe.length ≤ 128) (hgtk : m.gtk.length = 32) (mem : Nat → Byte)
    (fuel : Nat) : (m.Misread mem →
      scanKde (memWith (paddedKeyData m) mem) (paddedKeyData m).length (fuel + 1 + 1 + 1) 0
        (.found [] 0 0) = .overflow) ∧
    (¬ m.Misread mem →
      scanKde (memWith (paddedKeyData m) mem) (paddedKeyData m).length (fuel + 1 + 1 + 1) 0
        (.found [] 0 0) = .found m.sentGtk (gtkLen m.groupCipher) (m.defaultKeyIdx % 4)) := by
  obtain ⟨hmin, hmax⟩ := gtkLen_bounds m.groupCipher
  rw [← length_sentGtk hgtk] at hmin hmax
  set pad := if keyDescVerOf m.wepStatus m.groupCipher = keyDescAes then
    keyDataPad (plainKeyData m).length else [] with hpad
  set rsn := (0x30 :: ofNat 8 m.rsnIe.length :: m.rsnIe : List Byte)
  set kde := gtkKde (ofNat 8 (m.defaultKeyIdx % 4)) m.sentGtk
  have hplain : plainKeyData m = rsn ++ kde := plainKeyData_message3 htype hwpa2 hrsn hgtk
  have htext : paddedKeyData m = rsn ++ (kde ++ pad) := by
    rw [paddedKeyData, ← hpad, hplain, append_assoc]
  have hidx : (ofNat 8 (m.defaultKeyIdx % 4)).toNat % 4 = m.defaultKeyIdx % 4 := by
    rw [toNat_ofNat]
    omega
  have hscan : scanKde (memWith (paddedKeyData m) mem) (paddedKeyData m).length (fuel + 1 + 1 + 1) 0
      (.found [] 0 0) =
      scanKde (memWith pad fun j => mem ((plainKeyData m).length + j)) pad.length (fuel + 1) 0
        (.found m.sentGtk (gtkLen m.groupCipher) (m.defaultKeyIdx % 4)) := by
    rw [htext, length_append, length_append,
      scanKde_skip (by decide) m.rsnIe (by omega) (kde ++ pad) mem (kde.length + pad.length),
      scanKde_gtk _ hmin hmax pad, hidx, length_sentGtk hgtk, hplain, length_append]
    simp only [Nat.add_assoc]
    rfl
  rw [hscan]
  by_cases hver : keyDescVerOf m.wepStatus m.groupCipher = keyDescAes
  · rw [hpad, if_pos hver, MsgParams.Misread, and_iff_right hver]
    exact scanKde_padding (plainKeyData m).length fuel _ _
  · rw [hpad, if_neg hver]
    refine ⟨fun h => absurd h.1 hver, fun _ => ?_⟩
    exact scanKde_zeros 0 (fuel + 1) _ _

end

/-! ## The checks of the supplicant -/

section

variable {c} {m : MsgParams} {s : Supplicant} {e : Entry} {env : Env}

/-- The group key and its index are what a supplicant keeps. -/
def Supplicant.Holds (s : Supplicant) (gtk : List Byte) (keyIdx : Nat) : Prop :=
  s.gtk = gtk ∧ s.defaultKeyId = keyIdx

theorem apCliInstallSharedKey_holds (hgroup : s.groupCipher ≠ .other) {key : List Byte}
    (hkey : key.length = gtkLen s.groupCipher) (keyIdx : Nat) :
    ∃ s', apCliInstallSharedKey s key (gtkLen s.groupCipher) keyIdx = some s' ∧ s'.Holds key keyIdx := by
  unfold apCliInstallSharedKey
  dsimp only
  cases hg : s.groupCipher with
  | tkip =>
    rw [hg] at hkey
    refine ⟨_, if_pos (le_refl 32), ?_, rfl⟩
    exact take_of_length_le (le_of_eq hkey)
  | aes =>
    rw [hg] at hkey
    refine ⟨_, if_pos (le_refl 16), ?_, rfl⟩
    exact take_of_length_le (le_of_eq hkey)
  | other => exact absurd hg hgroup

theorem keyDataLen_ne_zero (hgtk : m.gtkIncluded = true) (hpos : 0 < (plainKeyData m).length)
    (hlen : (plainKeyData m).length < 2 ^ 15) : (constructEapolMsg c m).keyDataLen ≠ 0 := by
  have hupper := length_builtKeyData c m hgtk
  have hlower : (plainKeyData m).length ≤ (m.builtKeyData c).length := by
    rw [builtKeyData_of_gtkIncluded c m hgtk]
    split_ifs
    · rw [length_aesKeyWrap, paddedKeyData, length_append]
      omega
    · rw [tkipGtkKeyWrap, length_arc4Compute, paddedKeyData, length_append]
      omega
  intro hzero
  rw [constructEapolMsg_keyDataLen] at hzero
  have hnat := congrArg BitVec.toNat hzero
  rw [toNat_ofNat, mod_eq_of_lt (by omega)] at hnat
  have hnil : (m.builtKeyData c).length = 0 := hnat
  omega

theorem supplicantSanity_gtk {msgType : MsgType} {mem : Nat → Byte}
    (hok : messageOk c e msgType (constructEapolMsg c m) env = true)
    (hmem : env.keyData = some mem) (hgtk : m.gtkIncluded = true) (hptk : e.ptk = m.ptk)
    (hpos : 0 < (plainKeyData m).length) (hlen : (plainKeyData m).length < 2 ^ 15)
    (hcase : (msgType = .pair3 ∧ e.authMode.isWpa2 = true) ∨ msgType = .group1) :
    supplicantSanity c s e msgType (constructEapolMsg c m) env =
      rtmpParseEapolKeyData s (memWith (paddedKeyData m) mem) (paddedKeyData m).length
        (if e.authMode.isWpa2 = false ∧ msgType = .group1 then (keyInfoOf m).keyIndex.toNat else 0)
        e.authMode.isWpa2 := by
  unfold supplicantSanity
  rw [if_neg (by simp [hok]), if_neg (keyDataLen_ne_zero hgtk hpos hlen), if_pos hcase]
  dsimp only
  rw [decryptKeyData_built c m e hgtk hptk hlen, hmem, getD_some, constructEapolMsg_keyInfo]

theorem supplicantSanity_message3 {mem : Nat → Byte}
    (hok : messageOk c e .pair3 (constructEapolMsg c m) env = true)
    (hmem : env.keyData = some mem) (hptk : e.ptk = m.ptk) (hmode : e.authMode.isWpa2 = true)
    (htype : m.msgType = .pair3) (hwpa2 : m.wpa2 = true)
    (hrsn : (m.rsnIe.drop 2).take 3 = [0x00, 0x0f, 0xac]) (hlen : m.rsnIe.length ≤ 128)
    (hgtk : m.gtk.length = 32) (hgroup : s.groupCipher = m.groupCipher)
    (hcipher : m.groupCipher ≠ .other) (hidx : m.defaultKeyIdx ≤ 3) :
    (m.Misread mem → supplicantSanity c s e .pair3 (constructEapolMsg c m) env = .overflow) ∧
    (¬ m.Misread mem → ∃ s', supplicantSanity c s e .pair3 (constructEapolMsg c m) env = .accepted s' ∧
      s'.Holds m.sentGtk m.defaultKeyIdx) := by
  have hplain := length_plainKeyData_message3 htype hwpa2 hrsn hgtk
  obtain ⟨-, hmax⟩ := gtkLen_bounds m.groupCipher
  have hpad := length_keyDataPad (plainKeyData m).length
  have htext : (paddedKeyData m).length < 256 := by
    rw [paddedKeyData, length_append]
    split_ifs
    · omega
    · simp only [length_nil]
      omega
  have hlower : (plainKeyData m).length ≤ (paddedKeyData m).length := by
    rw [paddedKeyData, length_append]
    omega
  have hincluded : m.gtkIncluded = true := by simp [MsgParams.gtkIncluded, htype, hwpa2]
  rw [supplicantSanity_gtk hok hmem hincluded hptk (by omega) (by omega) (.inl ⟨rfl, hmode⟩)]
  unfold rtmpParseEapolKeyData
  dsimp only
  rw [if_pos hmode, mod_eq_of_lt htext]
  obtain ⟨fuel, hfuel⟩ : ∃ fuel, (paddedKeyData m).length + 1 = fuel + 1 + 1 + 1 :=
    ⟨(paddedKeyData m).length - 2, by omega⟩
  obtain ⟨hbad, hgood⟩ := scanKde_message3 htype hwpa2 hrsn hlen hgtk mem fuel
  rw [← hfuel] at hbad hgood
  constructor
  · intro hmis
    rw [hbad hmis]
  · intro hmis
    rw [hgood hmis]
    dsimp only
    have hkey : m.sentGtk.length = gtkLen s.groupCipher := by rw [hgroup, length_sentGtk hgtk]
    obtain ⟨s', hinstall, hholds⟩ :=
      apCliInstallSharedKey_holds (hgroup ▸ hcipher) hkey (m.defaultKeyIdx % 4)
    rw [if_neg (by omega), ← hgroup, hinstall]
    rw [mod_eq_of_lt (by omega)] at hholds
    exact ⟨s', rfl, hholds⟩

theorem supplicantSanity_group1 {mem : Nat → Byte}
    (hok : messageOk c e .group1 (constructEapolMsg c m) env = true)
    (hmem : env.keyData = some mem) (hptk : e.ptk = m.ptk) (hmode : e.authMode.isWpa2 = false)
    (htype : m.msgType = .group1) (hwpa2 : m.wpa2 = false) (hgtk : m.gtk.length = 32)
    (hgroup : s.groupCipher = m.groupCipher) (hcipher : m.groupCipher ≠ .other)
    (hidx : m.defaultKeyIdx ≤ 3) :
    ∃ s', supplicantSanity c s e .group1 (constructEapolMsg c m) env = .accepted s' ∧
      s'.Holds m.sentGtk m.defaultKeyIdx := by
  have hincluded : m.gtkIncluded = true := by simp [MsgParams.gtkIncluded, htype]
  have hplain : plainKeyData m = m.sentGtk := by
    simp [plainKeyData, htype, hincluded, hwpa2, MsgParams.sentGtk]
  obtain ⟨hmin, hmax⟩ := gtkLen_bounds m.groupCipher
  have hlen := length_sentGtk hgtk
  have hpad : keyDataPad m.sentGtk.length = [] := by
    rw [hlen, keyDataPad, if_pos]
    unfold gtkLen
    split_ifs <;> rfl
  have htext : paddedKeyData m = m.sentGtk := by
    rw [paddedKeyData, hplain, hpad, ite_self, append_nil]
  rw [supplicantSanity_gtk hok hmem hincluded hptk (by rw [hplain]; omega) (by rw [hplain]; omega)
    (.inr rfl), htext]
  have hbytes : bytesAt (memWith m.sentGtk mem) 0 m.sentGtk.length = m.sentGtk := by
    have h := bytesAt_memWith m.sentGtk mem []
    rwa [append_nil] at h
  have hindex : (keyInfoOf m).keyIndex.toNat = m.defaultKeyIdx := by
    simp only [keyInfoOf, htype, hwpa2, MsgType.num]
    rw [if_pos ⟨trivial, le_refl 5⟩, toNat_ofNat]
    omega
  have hkey : m.sentGtk.length = gtkLen s.groupCipher := by rw [hgroup, hlen]
  obtain ⟨s', hinstall, hholds⟩ :=
    apCliInstallSharedKey_holds (hgroup ▸ hcipher) hkey m.defaultKeyIdx
  unfold rtmpParseEapolKeyData
  dsimp only
  rw [hmode, if_neg Bool.false_ne_true, mod_eq_of_lt (by omega), if_neg (by omega), hbytes,
    if_pos ⟨rfl, rfl⟩, hindex]
  dsimp only
  rw [if_neg (by omega), hkey, hinstall]
  exact ⟨s', rfl, hholds⟩

end

end RalinkSdk.Wpa
