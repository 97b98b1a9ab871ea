import RalinkSdk.Crypt.KeyWrap
import RalinkSdk.Crypt.HashBlocks
import RalinkSdk.Lib.Region

/-!
# WEP in software

`RTMPSoftEncryptWEP` and `RTMPSoftDecryptWEP`, which work in place: the plain text is written over
the header of four bytes before the cipher text.  `none` is an access outside a buffer.

## Source

`common/cmm_wep.c`, `common/crypt_arc4.c`.
-/

namespace RalinkSdk.Crypt

open Lib List Option Nat

/-! ## Functions -/

def fcsTab32 : List (BitVec 32) :=
  [0x00000000, 0x77073096, 0xee0e612c, 0x990951ba, 0x076dc419, 0x706af48f, 0xe963a535, 0x9e6495a3,
   0x0edb8832, 0x79dcb8a4, 0xe0d5e91e, 0x97d2d988, 0x09b64c2b, 0x7eb17cbd, 0xe7b82d07, 0x90bf1d91,
   0x1db71064, 0x6ab020f2, 0xf3b97148, 0x84be41de, 0x1adad47d, 0x6ddde4eb, 0xf4d4b551, 0x83d385c7,
   0x136c9856, 0x646ba8c0, 0xfd62f97a, 0x8a65c9ec, 0x14015c4f, 0x63066cd9, 0xfa0f3d63, 0x8d080df5,
   0x3b6e20c8, 0x4c69105e, 0xd56041e4, 0xa2677172, 0x3c03e4d1, 0x4b04d447, 0xd20d85fd, 0xa50ab56b,
   0x35b5a8fa, 0x42b2986c, 0xdbbbc9d6, 0xacbcf940, 0x32d86ce3, 0x45df5c75, 0xdcd60dcf, 0xabd13d59,
   0x26d930ac, 0x51de003a, 0xc8d75180, 0xbfd06116, 0x21b4f4b5, 0x56b3c423, 0xcfba9599, 0xb8bda50f,
   0x2802b89e, 0x5f058808, 0xc60cd9b2, 0xb10be924, 0x2f6f7c87, 0x58684c11, 0xc1611dab, 0xb6662d3d,
   0x76dc4190, 0x01db7106, 0x98d220bc, 0xefd5102a, 0x71b18589, 0x06b6b51f, 0x9fbfe4a5, 0xe8b8d433,
   0x7807c9a2, 0x0f00f934, 0x9609a88e, 0xe10e9818, 0x7f6a0dbb, 0x086d3d2d, 0x91646c97, 0xe6635c01,
   0x6b6b51f4, 0x1c6c6162, 0x856530d8, 0xf262004e, 0x6c0695ed, 0x1b01a57b, 0x8208f4c1, 0xf50fc457,
   0x65b0d9c6, 0x12b7e950, 0x8bbeb8ea, 0xfcb9887c, 0x62dd1ddf, 0x15da2d49, 0x8cd37cf3, 0xfbd44c65,
   0x4db26158, 0x3ab551ce, 0xa3bc0074, 0xd4bb30e2, 0x4adfa541, 0x3dd895d7, 0xa4d1c46d, 0xd3d6f4fb,
   0x4369e96a, 0x346ed9fc, 0xad678846, 0xda60b8d0, 0x44042d73, 0x33031de5, 0xaa0a4c5f, 0xdd0d7cc9,
   0x5005713c, 0x270241aa, 0xbe0b1010, 0xc90c2086, 0x5768b525, 0x206f85b3, 0xb966d409, 0xce61e49f,
   0x5edef90e, 0x29d9c998, 0xb0d09822, 0xc7d7a8b4, 0x59b33d17, 0x2eb40d81, 0xb7bd5c3b, 0xc0ba6cad,
   0xedb88320, 0x9abfb3b6, 0x03b6e20c, 0x74b1d29a, 0xead54739, 0x9dd277af, 0x04db2615, 0x73dc1683,
   0xe3630b12, 0x94643b84, 0x0d6d6a3e, 0x7a6a5aa8, 0xe40ecf0b, 0x9309ff9d, 0x0a00ae27, 0x7d079eb1,
   0xf00f9344, 0x8708a3d2, 0x1e01f268, 0x6906c2fe, 0xf762575d, 0x806567cb, 0x196c3671, 0x6e6b06e7,
   0xfed41b76, 0x89d32be0, 0x10da7a5a, 0x67dd4acc, 0xf9b9df6f, 0x8ebeeff9, 0x17b7be43, 0x60b08ed5,
   0xd6d6a3e8, 0xa1d1937e, 0x38d8c2c4, 0x4fdff252, 0xd1bb67f1, 0xa6bc5767, 0x3fb506dd, 0x48b2364b,
   0xd80d2bda, 0xaf0a1b4c, 0x36034af6, 0x41047a60, 0xdf60efc3, 0xa867df55, 0x316e8eef, 0x4669be79,
   0xcb61b38c, 0xbc66831a, 0x256fd2a0, 0x5268e236, 0xcc0c7795, 0xbb0b4703, 0x220216b9, 0x5505262f,
   0xc5ba3bbe, 0xb2bd0b28, 0x2bb45a92, 0x5cb36a04, 0xc2d7ffa7, 0xb5d0cf31, 0x2cd99e8b, 0x5bdeae1d,
   0x9b64c2b0, 0xec63f226, 0x756aa39c, 0x026d930a, 0x9c0906a9, 0xeb0e363f, 0x72076785, 0x05005713,
   0x95bf4a82, 0xe2b87a14, 0x7bb12bae, 0x0cb61b38, 0x92d28e9b, 0xe5d5be0d, 0x7cdcefb7, 0x0bdbdf21,
   0x86d3d2d4, 0xf1d4e242, 0x68ddb3f8, 0x1fda836e, 0x81be16cd, 0xf6b9265b, 0x6fb077e1, 0x18b74777,
   0x88085ae6, 0xff0f6a70, 0x66063bca, 0x11010b5c, 0x8f659eff, 0xf862ae69, 0x616bffd3, 0x166ccf45,
   0xa00ae278, 0xd70dd2ee, 0x4e048354, 0x3903b3c2, 0xa7672661, 0xd06016f7, 0x4969474d, 0x3e6e77db,
   0xaed16a4a, 0xd9d65adc, 0x40df0b66, 0x37d83bf0, 0xa9bcae53, 0xdebb9ec5, 0x47b2cf7f, 0x30b5ffe9,
   0xbdbdf21c, 0xcabac28a, 0x53b39330, 0x24b4a3a6, 0xbad03605, 0xcdd70693, 0x54de5729, 0x23d967bf,
   0xb3667a2e, 0xc4614ab8, 0x5d681b02, 0x2a6f2b94, 0xb40bbe37, 0xc30c8ea1, 0x5a05df1b, 0x2d02ef8d]

def rtmpCalcFcs32 (fcs : BitVec 32) (cp : List Byte) : BitVec 32 :=
  cp.foldl (fun fcs b =>
    fcs >>> 8 ^^^ fcsTab32.getD ((fcs ^^^ b.setWidth 32) &&& 0xff).toNat 0) fcs

/-- The complement of the sum over `cp`, from `PPPINITFCS32` on. -/
def frameIcv (cp : List Byte) : BitVec 32 := rtmpCalcFcs32 0xffffffff cp ^^^ 0xffffffff

/-- `ARC4_Compute` from one offset of a buffer to another. -/
def arc4InPlace (ctx : Arc4Ctx) (data : List Byte) (src dst : Nat) : Nat → Option (List Byte)
  | 0 => some data
  | n + 1 => do
    let b ← data[src]?
    let data ← put data dst [b ^^^ (arc4Next ctx).2]
    arc4InPlace (arc4Next ctx).1 data (src + 1) (dst + 1) n

/-- What `os_alloc_mem` does for the context and for the seed, and what the memory of the context
    holds before it is initialized. -/
structure WepMemory where
  ctxMemory : Bool
  seedMemory : Bool
  uninitialized : Arc4Ctx

/-- `RTMPInitWepEngine`; the key is made of `KeyLen` bytes. -/
def rtmpInitWepEngine (memory : WepMemory) (iv key : List Byte) : Option Arc4Ctx :=
  if !memory.seedMemory then some memory.uninitialized
  else do
    let iv ← fetch iv 0 3
    let seed ← put (replicate 16 0) 0 iv
    let seed ← put seed 3 key
    some (arc4Init (seed.take (3 + key.length)))

def rtmpSoftEncryptWep (memory : WepMemory) (ivHdr key pData : List Byte) (dataByteCnt : Nat) :
    Option (Bool × List Byte) :=
  if !memory.ctxMemory then some (false, pData)
  else if key.length = 0 then some (false, pData)
  else do
    let ctx ← rtmpInitWepEngine memory ivHdr key
    let plain ← fetch pData 0 dataByteCnt
    let pData ← put pData dataByteCnt (le32Bytes (frameIcv plain))
    let pData ← arc4InPlace ctx pData 0 0 (dataByteCnt + 4)
    some (true, pData)

/-- `RTMPSoftDecryptWEP`: the value, the buffer and `*DataByteCnt`.  All lengths are `UINT16`. -/
def rtmpSoftDecryptWep (memory : WepMemory) (key pData : List Byte) (dataByteCnt : BitVec 16) :
    Option (Bool × List Byte × BitVec 16) :=
  if !memory.ctxMemory then some (false, pData, dataByteCnt)
  else if key.length = 0 then some (false, pData, dataByteCnt)
  else do
    let ctx ← rtmpInitWepEngine memory pData key
    let ciphertextLen := dataByteCnt - 4
    let pData ← arc4InPlace ctx pData 4 0 ciphertextLen.toNat
    let plaintextLen := ciphertextLen - 4
    let trailfcs ← fetch pData plaintextLen.toNat 4
    let plain ← fetch pData 0 plaintextLen.toNat
    if frameIcv plain ≠ le32Word trailfcs then some (false, pData, dataByteCnt)
    else some (true, pData, plaintextLen)

/-! ## The cipher in place -/

section

variable {ctx : Arc4Ctx} {done gap input rest data : List Byte} {src dst n : Nat}

/-- **In place**: what is read lies `gap` bytes ahead of what is written, so that it is still the
    input.  The induction is on the input; the gap moves with it. -/
theorem arc4InPlace_eq (hdst : done.length = dst) (hsrc : dst + gap.length = src) :
    arc4InPlace ctx (done ++ (gap ++ (input ++ rest))) src dst input.length =
      some (done ++ (arc4Compute ctx input ++ ((gap ++ input).drop input.length ++ rest))) := by
  induction input generalizing ctx done gap src dst with
  | nil => simp [arc4InPlace, arc4Compute]
  | cons b input ih =>
    have hread : (done ++ (gap ++ (b :: input ++ rest)))[src]? = some b := by
      rw [← append_assoc, getElem?_append_right (by rw [length_append]; omega),
        length_append, hdst, hsrc, Nat.sub_self]
      rfl
    -- the byte that is overwritten is the first one of the gap, or the byte that was read
    obtain ⟨old, hold, hsplit⟩ : ∃ old, old.length = 1 ∧
        gap ++ (b :: input ++ rest) = old ++ ((gap ++ [b]).drop 1 ++ (input ++ rest)) := by
      refine ⟨(gap ++ [b]).take 1, by simp, ?_⟩
      calc gap ++ (b :: input ++ rest) = (gap ++ [b]) ++ (input ++ rest) := by simp
        _ = ((gap ++ [b]).take 1 ++ (gap ++ [b]).drop 1) ++ (input ++ rest) := by
          rw [take_append_drop]
        _ = _ := append_assoc _ _ _
    have hgap : ((gap ++ [b]).drop 1).length = gap.length := by simp
    have hdst' : (done ++ [b ^^^ (arc4Next ctx).2]).length = dst + 1 := by simp [hdst]
    have hsrc' : dst + 1 + ((gap ++ [b]).drop 1).length = src + 1 := by
      rw [hgap]
      omega
    have hput : put (done ++ (old ++ ((gap ++ [b]).drop 1 ++ (input ++ rest)))) dst
        [b ^^^ (arc4Next ctx).2] =
          some (done ++ ([b ^^^ (arc4Next ctx).2] ++ ((gap ++ [b]).drop 1 ++ (input ++ rest)))) :=
      put_append hdst hold
    rw [length_cons, arc4InPlace, hread, hsplit]
    simp only [bind_eq_bind, bind_some]
    rw [hput, bind_some, ← append_assoc, ih hdst' hsrc', arc4Compute]
    have hmove : (gap ++ [b]).drop 1 ++ input = (gap ++ b :: input).drop 1 := by
      rw [← drop_append_of_le_length (by simp)]
      simp
    rw [hmove, drop_drop, Nat.add_comm 1]
    simp

theorem arc4InPlace_ahead (ctx : Arc4Ctx) (gap input rest : List Byte) :
    arc4InPlace ctx (gap ++ (input ++ rest)) gap.length 0 input.length =
      some (arc4Compute ctx input ++ ((gap ++ input).drop input.length ++ rest)) :=
  arc4InPlace_eq length_nil (Nat.zero_add _)

theorem length_arc4InPlace {data' : List Byte} (h : arc4InPlace ctx data src dst n = some data') :
    data'.length = data.length := by
  induction n generalizing ctx data src dst with
  | zero => rw [some.inj h]
  | succ n ih =>
    rw [arc4InPlace] at h
    obtain ⟨b, -, h⟩ := bind_eq_some_iff.mp h
    obtain ⟨data₁, hput, h⟩ := bind_eq_some_iff.mp h
    rw [ih h, length_put hput]

end

/-! ## The round trip -/

section

variable {memory memory' : WepMemory} {ivHdr key payload room : List Byte}

theorem rtmpInitWepEngine_eq (hmem : memory.seedMemory = true) (hiv : 3 ≤ ivHdr.length)
    (hkey : key.length ≤ 13) :
    rtmpInitWepEngine memory ivHdr key = some (arc4Init (ivHdr.take 3 ++ key)) := by
  have htake : (ivHdr.take 3).length = 3 := length_take_of_le hiv
  have hfetch : fetch ivHdr 0 3 = some (ivHdr.take 3) :=
    fetch_eq_some_iff.mpr ⟨by omega, by rw [drop_zero]⟩
  have hputIv : put (replicate 16 0) 0 (ivHdr.take 3) =
      some (ivHdr.take 3 ++ replicate 13 (0 : Byte)) := by
    have hlen : (replicate 3 (0 : Byte)).length = (ivHdr.take 3).length := by
      rw [htake, length_replicate]
    have h : put ([] ++ (replicate 3 (0 : Byte) ++ replicate 13 0)) 0 (ivHdr.take 3) =
        some ([] ++ (ivHdr.take 3 ++ replicate 13 0)) := put_append rfl hlen
    rwa [nil_append, replicate_append_replicate] at h
  have hputKey : put (ivHdr.take 3 ++ replicate 13 (0 : Byte)) 3 key =
      some (ivHdr.take 3 ++ (key ++ replicate (13 - key.length) 0)) := by
    have hzeros : replicate 13 (0 : Byte) =
        replicate key.length 0 ++ replicate (13 - key.length) 0 := by
      rw [replicate_append_replicate, Nat.add_sub_cancel' hkey]
    rw [hzeros]
    exact put_append htake length_replicate
  have hseed : (ivHdr.take 3 ++ (key ++ replicate (13 - key.length) (0 : Byte))).take
      (3 + key.length) = ivHdr.take 3 ++ key := by
    rw [← append_assoc]
    exact take_left' (by rw [length_append, htake])
  rw [rtmpInitWepEngine, hmem, hfetch]
  simp only [Bool.not_true, Bool.false_eq_true, if_false, bind_eq_bind, bind_some,
    hputIv, hputKey, hseed]

theorem rtmpSoftEncryptWep_eq (hctx : memory.ctxMemory = true) (hseed : memory.seedMemory = true)
    (hpos : 0 < key.length) (hkey : key.length ≤ 13) (hiv : 3 ≤ ivHdr.length)
    (hroom : 4 ≤ room.length) :
    rtmpSoftEncryptWep memory ivHdr key (payload ++ room) payload.length =
      some (true, arc4Compute (arc4Init (ivHdr.take 3 ++ key))
        (payload ++ le32Bytes (frameIcv payload)) ++ room.drop 4) := by
  have hicv : (le32Bytes (frameIcv payload)).length = 4 := rfl
  have hput : put (payload ++ room) payload.length (le32Bytes (frameIcv payload)) =
      some (payload ++ (le32Bytes (frameIcv payload) ++ room.drop 4)) := by
    conv_lhs => rw [← take_append_drop 4 room]
    exact put_append rfl (by rw [length_take_of_le hroom, hicv])
  have hfetch : fetch (payload ++ room) 0 payload.length = some payload :=
    fetch_append length_nil rfl
  have hcipher := arc4InPlace_ahead (arc4Init (ivHdr.take 3 ++ key)) []
    (payload ++ le32Bytes (frameIcv payload)) (room.drop 4)
  rw [length_append, hicv] at hcipher
  simp only [nil_append, append_assoc, length_nil] at hcipher
  rw [rtmpSoftEncryptWep, hctx, if_neg (by decide), if_neg (by omega),
    rtmpInitWepEngine_eq hseed hiv hkey]
  simp only [bind_eq_bind, bind_some, hfetch, hput, hcipher]
  rw [drop_eq_nil_of_le (by simp [hicv]), nil_append]

theorem ofNat_add_sub_four (n : Nat) : BitVec.ofNat 16 (n + 4) - 4 = BitVec.ofNat 16 n := by
  rw [BitVec.ofNat_add]
  exact BitVec.add_sub_cancel _ _

/-- **The round trip**: the cipher text behind its header is decrypted to the payload, which is
    written over the header. -/
theorem rtmpSoftDecryptWep_encrypt (hctx : memory.ctxMemory = true)
    (hseed : memory.seedMemory = true) (hctx' : memory'.ctxMemory = true)
    (hseed' : memory'.seedMemory = true) (hpos : 1 ≤ key.length) (hkey : key.length ≤ 13)
    (hiv : ivHdr.length = 4) (hpayload : payload.length ≤ 65527) (hroom : 4 ≤ room.length) :
    ∃ pData, rtmpSoftEncryptWep memory ivHdr key (payload ++ room) payload.length =
        some (true, pData) ∧
      ∃ out, rtmpSoftDecryptWep memory' key (ivHdr ++ pData.take (payload.length + 4))
          (BitVec.ofNat 16 (payload.length + 8)) =
            some (true, out, BitVec.ofNat 16 payload.length) ∧
        out.take payload.length = payload := by
  refine ⟨_, rtmpSoftEncryptWep_eq hctx hseed hpos hkey (by omega) hroom, ?_⟩
  have hicv : (le32Bytes (frameIcv payload)).length = 4 := rfl
  generalize hstream : arc4Init (ivHdr.take 3 ++ key) = ctx
  have hcipher : (arc4Compute ctx (payload ++ le32Bytes (frameIcv payload))).length =
      payload.length + 4 := by
    rw [length_arc4Compute, List.length_append, hicv]
  rw [List.take_left' hcipher]
  have hinit : rtmpInitWepEngine memory'
      (ivHdr ++ arc4Compute ctx (payload ++ le32Bytes (frameIcv payload))) key = some ctx := by
    rw [rtmpInitWepEngine_eq hseed' (by rw [List.length_append]; omega) hkey,
      List.take_append_of_le_length (by omega), hstream]
  have hcipherLen : BitVec.ofNat 16 (payload.length + 8) - 4 =
      BitVec.ofNat 16 (payload.length + 4) := ofNat_add_sub_four (payload.length + 4)
  have hcipherNat : (BitVec.ofNat 16 (payload.length + 4)).toNat = payload.length + 4 := by
    rw [BitVec.toNat_ofNat, Nat.mod_eq_of_lt (by omega)]
  have hplainNat : (BitVec.ofNat 16 payload.length).toNat = payload.length := by
    rw [BitVec.toNat_ofNat, Nat.mod_eq_of_lt (by omega)]
  -- decryption of the encrypted text, four bytes further down
  have hdecrypt := arc4InPlace_ahead ctx ivHdr
    (arc4Compute ctx (payload ++ le32Bytes (frameIcv payload))) []
  rw [hiv, hcipher, arc4Compute_involutive] at hdecrypt
  simp only [List.append_nil] at hdecrypt
  obtain ⟨tail, htail⟩ : ∃ tail, tail = (ivHdr ++
      arc4Compute ctx (payload ++ le32Bytes (frameIcv payload))).drop (payload.length + 4) :=
    ⟨_, rfl⟩
  rw [← htail, List.append_assoc] at hdecrypt
  refine ⟨payload ++ (le32Bytes (frameIcv payload) ++ tail), ?_, List.take_left' rfl⟩
  have htrail : fetch (payload ++ (le32Bytes (frameIcv payload) ++ tail)) payload.length 4 =
      some (le32Bytes (frameIcv payload)) := fetch_append rfl hicv
  have hplain : fetch (payload ++ (le32Bytes (frameIcv payload) ++ tail)) 0 payload.length =
      some payload := fetch_append List.length_nil rfl
  rw [rtmpSoftDecryptWep, hctx', if_neg (by decide), if_neg (by omega), hinit]
  simp only [Option.bind_eq_bind, Option.bind_some, hcipherLen, hcipherNat, hdecrypt,
    ofNat_add_sub_four, hplainNat, htrail, hplain, le32Word_le32Bytes, ne_eq, not_true, if_false]

/-- A key of 5 bytes, 3 bytes of payload and no byte too many behind it. -/
theorem rtmpSoftDecryptWep_encrypt_short :
    ∃ pData, rtmpSoftEncryptWep ⟨true, true, arc4Init []⟩ [1, 2, 3, 0] [9, 8, 7, 6, 5]
        ([4, 5, 6] ++ [0, 0, 0, 0]) 3 = some (true, pData) ∧
      ∃ out, rtmpSoftDecryptWep ⟨true, true, arc4Init []⟩ [9, 8, 7, 6, 5]
          ([1, 2, 3, 0] ++ pData.take (3 + 4)) (BitVec.ofNat 16 (3 + 8)) =
            some (true, out, BitVec.ofNat 16 3) ∧
        out.take 3 = [4, 5, 6] :=
  @rtmpSoftDecryptWep_encrypt ⟨true, true, arc4Init []⟩ ⟨true, true, arc4Init []⟩ [1, 2, 3, 0]
    [9, 8, 7, 6, 5] [4, 5, 6] [0, 0, 0, 0] rfl rfl rfl rfl (by decide) (by decide) rfl (by decide)
    (by decide)

end

/-! ## Received bodies -/

/-- A decryptor stays inside the frame, and it refuses a body that is shorter than what its cipher
    adds. -/
def StaysInside (overhead : Nat) (pData : List Byte)
    (result : Option (Bool × List Byte × BitVec 16)) : Prop :=
  ∃ ok out n, result = some (ok, out, n) ∧ (pData.length < overhead → ok = false)

section

variable {memory : WepMemory} {key pData : List Byte}

theorem staysInside_refused {overhead : Nat} {out : List Byte} {n : BitVec 16} :
    StaysInside overhead pData (some (false, out, n)) := ⟨false, out, n, rfl, fun _ => rfl⟩

theorem staysInside_of_some {overhead : Nat} (h : overhead ≤ pData.length)
    {result : Bool × List Byte × BitVec 16} : StaysInside overhead pData (some result) :=
  ⟨result.1, result.2.1, result.2.2, rfl, fun hshort => absurd hshort (Nat.not_lt.mpr h)⟩

theorem not_staysInside_none {overhead : Nat} : ¬StaysInside overhead pData none := by
  rintro ⟨ok, out, n, hnone, -⟩
  exact nomatch hnone

theorem arc4InPlace_isSome (ctx : Arc4Ctx) {data : List Byte} {src n : Nat}
    (h : src + n ≤ data.length) : ∃ data', arc4InPlace ctx data src 0 n = some data' := by
  have hgap : (data.take src).length = src := length_take_of_le (by omega)
  have hinput : ((data.drop src).take n).length = n :=
    length_take_of_le (by rw [length_drop]; omega)
  have hrun := arc4InPlace_ahead ctx (data.take src) ((data.drop src).take n)
    ((data.drop src).drop n)
  rw [take_append_drop, take_append_drop, hinput, hgap] at hrun
  exact ⟨_, hrun⟩

theorem toNat_wepLengths {n : Nat} (h : 8 ≤ n) (hcap : n < 2 ^ 16) :
    (BitVec.ofNat 16 n - 4).toNat = n - 4 ∧ (BitVec.ofNat 16 n - 4 - 4).toNat = n - 8 := by
  obtain ⟨k, rfl⟩ := Nat.exists_eq_add_of_le' h
  rw [ofNat_add_sub_four (k + 4), ofNat_add_sub_four, BitVec.toNat_ofNat, BitVec.toNat_ofNat,
    mod_eq_of_lt (by omega), mod_eq_of_lt (by omega)]
  omega

theorem toNat_wepLength_wraps {n : Nat} (h : n < 8) :
    2 ^ 16 - 8 ≤ (BitVec.ofNat 16 n - 4 - 4).toNat := by
  interval_cases n <;> decide

/-- **WEP**: a body is decrypted inside the frame exactly if it holds header and check value and
    the key fits the seed, or if there is no memory or no key. -/
theorem wepStaysInside_iff (hcap : pData.length < 2 ^ 16) : StaysInside 8 pData
        (rtmpSoftDecryptWep memory key pData (BitVec.ofNat 16 pData.length)) ↔
      memory.ctxMemory = false ∨ key.length = 0 ∨
        ((memory.seedMemory = true → key.length ≤ 13) ∧ 8 ≤ pData.length) := by
  unfold rtmpSoftDecryptWep
  by_cases hctx : memory.ctxMemory = true
  case neg =>
    have hno := Bool.eq_false_of_not_eq_true hctx
    rw [hno, if_pos (by decide)]
    exact ⟨fun _ => .inl rfl, fun _ => staysInside_refused⟩
  rw [hctx, if_neg (by decide)]
  by_cases hkey : key.length = 0
  case pos =>
    rw [if_pos hkey]
    exact ⟨fun _ => .inr (.inl hkey), fun _ => staysInside_refused⟩
  rw [if_neg hkey]
  constructor
  case mp =>
    intro h
    obtain ⟨ok, out, n, hrun, -⟩ := h
    obtain ⟨ctx, hinit, hrun⟩ := bind_eq_some_iff.mp hrun
    obtain ⟨data, hdecrypt, hrun⟩ := bind_eq_some_iff.mp hrun
    obtain ⟨trail, htrail, -⟩ := bind_eq_some_iff.mp hrun
    refine .inr (.inr ⟨fun hseed => ?_, ?_⟩)
    · -- the key was stored in the seed
      rw [rtmpInitWepEngine, hseed, if_neg (by decide)] at hinit
      obtain ⟨iv, hiv, hinit⟩ := bind_eq_some_iff.mp hinit
      obtain ⟨seed, hseedIv, hinit⟩ := bind_eq_some_iff.mp hinit
      obtain ⟨seed', hseedKey, -⟩ := bind_eq_some_iff.mp hinit
      have hroom := (put_eq_some_iff.mp hseedKey).1
      rw [length_put hseedIv, length_replicate] at hroom
      omega
    · -- the check value was read
      by_contra hshort
      have hread := (fetch_eq_some_iff.mp htrail).1
      rw [length_arc4InPlace hdecrypt] at hread
      have hwrap := toNat_wepLength_wraps (Nat.not_le.mp hshort)
      omega
  case mpr =>
    rintro (h | h | ⟨hseed, hlen⟩)
    · exact absurd h (by decide)
    · exact absurd h hkey
    · -- neither difference wraps, and every access is below the length of the body
      obtain ⟨ctx, hinit⟩ : ∃ ctx, rtmpInitWepEngine memory pData key = some ctx := by
        by_cases hmem : memory.seedMemory = true
        · exact ⟨_, rtmpInitWepEngine_eq hmem (by omega) (hseed hmem)⟩
        · rw [rtmpInitWepEngine, Bool.eq_false_of_not_eq_true hmem]
          exact ⟨_, rfl⟩
      obtain ⟨hcipher, hplain⟩ := toNat_wepLengths hlen hcap
      obtain ⟨data, hdecrypt⟩ := arc4InPlace_isSome ctx
        (show 4 + (pData.length - 4) ≤ pData.length by omega)
      have hsize := length_arc4InPlace hdecrypt
      obtain ⟨trail, htrail⟩ := isSome_iff_exists.mp
        (fetch_isSome_iff.mpr (show pData.length - 8 + 4 ≤ data.length by omega))
      obtain ⟨plain, hplainText⟩ := isSome_iff_exists.mp
        (fetch_isSome_iff.mpr (show 0 + (pData.length - 8) ≤ data.length by omega))
      rw [hinit]
      simp only [bind_eq_bind, bind_some, hcipher, hdecrypt, hplain, htrail, hplainText]
      split
      · exact staysInside_of_some hlen
      · exact staysInside_of_some hlen

end

end RalinkSdk.Crypt
