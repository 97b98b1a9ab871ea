import Mathlib
import RalinkSdk.Lib.CBytes

/-!
# NVRAM data model: flash partition, block layout, CRC, environment cache

The kernel driver (`arch/mips/rt2880/nvram.c`) and the user-space library
(`lib/libnvram/nvram_env.c`) share the layout modelled here: the `fb[]` table of
blocks of the `Config` flash partition, the CRC word in front of each block's
data, and the in-memory cache of `name`/`value` strings.

## Conventions

- The flash partition is a function from offsets to bytes.
- The cache is the list of its named slots.  A slot whose `name` is `NULL` ends
  every scan of the array and is the one `nvram_set` fills next, so the named
  slots are always a prefix of `cache[MAX_CACHE_ENTRY]`.
- A `value` is `none` when its `kstrdup` failed and left a `NULL` pointer.
-/

namespace RalinkSdk.Nvram

open Lib List

/-! ## Block layout -/

def envBlkSize : Nat := 0x1000

def maxCacheEntry : Nat := 500

/-- `sizeof(fb[i].env.crc)`: an `unsigned long` of the 32-bit target. -/
def sizeofCrc : Nat := 4

/-- `mtd->erasesize`: every chip of `chips_data[]` has 64 KiB sectors. -/
def mtdErasesize : Nat := 64 * 1024

/-- The constant part of a `block_t`: a row of the `fb[]` table.  Every block has
    room for more than its CRC word and lies in the first sector of the partition. -/
structure FlashBlock where
  name : String
  flashOffset : Nat
  flashMaxLen : Nat
  crc_lt : sizeofCrc + 1 < flashMaxLen
  in_sector : flashOffset + flashMaxLen ≤ mtdErasesize

/-- `len = flash_max_len - sizeof(crc)`: the size of the data buffer. -/
def FlashBlock.dataLen (g : FlashBlock) : Nat := g.flashMaxLen - sizeofCrc

theorem FlashBlock.two_le_dataLen (g : FlashBlock) : 2 ≤ g.dataLen := by
  have := g.crc_lt
  simp only [dataLen]
  omega

theorem FlashBlock.dataLen_add (g : FlashBlock) : g.dataLen + sizeofCrc = g.flashMaxLen := by
  have := g.crc_lt
  simp only [dataLen]
  omega

/-- The `uboot` row, present with `CONFIG_DUAL_IMAGE` only. -/
def ubootBlock : FlashBlock := ⟨"uboot", 0x0, 0x1000, by decide, by decide⟩

def rt2860Block : FlashBlock := ⟨"2860", 0x2000, envBlkSize * 4, by decide, by decide⟩

def rtdevBlock : FlashBlock := ⟨"rtdev", 0x6000, envBlkSize * 2, by decide, by decide⟩

def certBlock : FlashBlock := ⟨"cert", 0x8000, envBlkSize * 2, by decide, by decide⟩

def wapiBlock : FlashBlock := ⟨"wapi", 0xa000, envBlkSize * 5, by decide, by decide⟩

/-- The static table `fb[FLASH_BLOCK_NUM]`, with or without `CONFIG_DUAL_IMAGE`. -/
def fbTable (dualImage : Bool) : List FlashBlock :=
  (if dualImage then [ubootBlock] else []) ++ [rt2860Block, rtdevBlock, certBlock, wapiBlock]

/-! ## The flash partition -/

/-- Content of the `Config` partition. -/
abbrev Flash := Nat → UInt8

/-- `ra_mtd_read_nm`: `len` bytes from offset `start`. -/
def raMtdReadNm (flash : Flash) (start len : Nat) : List UInt8 :=
  (range len).map fun i => flash (start + i)

/-- Bytes stored at `start`, everything else as before. -/
def Flash.store (flash : Flash) (start : Nat) (buf : List UInt8) : Flash := fun a =>
  if start ≤ a ∧ a < start + buf.length then buf.getD (a - start) 0 else flash a

/-- `ra_mtd_write_nm`: read the first erase sector, patch it, erase it, write it
    back.  A request longer than a sector is refused with `-E2BIG`. -/
def raMtdWriteNm (flash : Flash) (start : Nat) (buf : List UInt8) : Flash :=
  if mtdErasesize < buf.length then flash
  else
    let bak := memWrite (raMtdReadNm flash 0 mtdErasesize) start buf
    let erased := flash.store 0 (replicate mtdErasesize 0xFF)
    erased.store 0 (bak.take mtdErasesize)

section

variable (flash : Flash)

@[simp] theorem length_raMtdReadNm (start len : Nat) :
    (raMtdReadNm flash start len).length = len := by
  simp [raMtdReadNm]

theorem memWrite_raMtdReadNm (start : Nat) {n off : Nat} {bs : List UInt8}
    (h : off + bs.length ≤ n) : memWrite (raMtdReadNm flash start n) off bs =
      raMtdReadNm (flash.store (start + off) bs) start n := by
  apply ext_getElem?
  intro i
  unfold memWrite
  rw [append_assoc]
  rcases lt_or_ge i off with hoff | hoff
  · -- before the patch
    have hnot : ¬ (start + off ≤ start + i ∧ start + i < start + off + bs.length) := by omega
    rw [getElem?_append_left (by simp; omega)]
    have hi : i < n := by omega
    simp [raMtdReadNm, Flash.store, hoff, hi]
  · rw [getElem?_append_right (by simp; omega), length_take, length_raMtdReadNm,
      Nat.min_eq_left (by omega)]
    rcases lt_or_ge i (off + bs.length) with hin | hout
    · -- in the patch
      have hi : i < n := by omega
      have hlt : i - off < bs.length := by omega
      have hsub : start + i - (start + off) = i - off := by omega
      rw [getElem?_append_left hlt]
      simp [raMtdReadNm, Flash.store, hi, hoff, hin, hsub, Nat.add_assoc, hlt]
    · -- behind the patch
      have hidx : off + bs.length + (i - off - bs.length) = i := by omega
      have hnot : ¬ i < off + bs.length := by omega
      rw [getElem?_append_right (by omega), getElem?_drop, hidx]
      rcases lt_or_ge i n with hi | hi
      · simp [raMtdReadNm, Flash.store, hnot, Nat.add_assoc, hi]
      · simp [raMtdReadNm, hi]

theorem store_patched {start n off : Nat} {bs : List UInt8} (h : off + bs.length ≤ n) :
    flash.store start (raMtdReadNm (flash.store (start + off) bs) start n) =
      flash.store (start + off) bs := by
  funext a
  rw [Flash.store, length_raMtdReadNm]
  by_cases hin : start ≤ a ∧ a < start + n
  · rw [if_pos hin]
    have hidx : start + (a - start) = a := by omega
    have hlt : a - start < n := by omega
    simp [raMtdReadNm, hlt, hidx]
  · rw [if_neg hin, Flash.store, if_neg (by omega)]

theorem store_over (start : Nat) {bs cs : List UInt8} (h : bs.length = cs.length) :
    (flash.store start bs).store start cs = flash.store start cs := by
  funext a
  unfold Flash.store
  rw [h]
  split <;> rfl

theorem raMtdWriteNm_eq_store {start : Nat} {buf : List UInt8}
    (h : start + buf.length ≤ mtdErasesize) :
    raMtdWriteNm flash start buf = flash.store start buf := by
  have hlen : ¬ mtdErasesize < buf.length := by omega
  have hlength := length_raMtdReadNm (flash.store (0 + start) buf) 0 mtdErasesize
  -- the write reads the sector, patches the copy, erases, and writes the copy back
  simp only [raMtdWriteNm, hlen, if_false]
  rw [memWrite_raMtdReadNm flash 0 h, take_of_length_le hlength.le,
    store_over _ _ (by rw [hlength, length_replicate]), store_patched flash h, Nat.zero_add]

theorem raMtdReadNm_store_same (start : Nat) (buf : List UInt8) :
    raMtdReadNm (flash.store start buf) start buf.length = buf := by
  apply ext_getElem?
  intro i
  rcases lt_or_ge i buf.length with hi | hi
  · simp [raMtdReadNm, hi, Flash.store]
  · simp [raMtdReadNm, hi]

theorem raMtdReadNm_store_disjoint {start len s : Nat} {buf : List UInt8}
    (h : start + len ≤ s ∨ s + buf.length ≤ start) :
    raMtdReadNm (flash.store s buf) start len = raMtdReadNm flash start len := by
  apply map_congr_left
  intro i hi
  rw [mem_range] at hi
  have hn : ¬ (s ≤ start + i ∧ start + i < s + buf.length) := by omega
  simp [Flash.store, hn]

end

/-! ## CRC-32 -/

def crcTable : List UInt32 :=
  [
    0x00000000, 0x77073096, 0xee0e612c, 0x990951ba, 0x076dc419, 0x706af48f,
    0xe963a535, 0x9e6495a3, 0x0edb8832, 0x79dcb8a4, 0xe0d5e91e, 0x97d2d988,
    0x09b64c2b, 0x7eb17cbd, 0xe7b82d07, 0x90bf1d91, 0x1db71064, 0x6ab020f2,
    0xf3b97148, 0x84be41de, 0x1adad47d, 0x6ddde4eb, 0xf4d4b551, 0x83d385c7,
    0x136c9856, 0x646ba8c0, 0xfd62f97a, 0x8a65c9ec, 0x14015c4f, 0x63066cd9,
    0xfa0f3d63, 0x8d080df5, 0x3b6e20c8, 0x4c69105e, 0xd56041e4, 0xa2677172,
    0x3c03e4d1, 0x4b04d447, 0xd20d85fd, 0xa50ab56b, 0x35b5a8fa, 0x42b2986c,
    0xdbbbc9d6, 0xacbcf940, 0x32d86ce3, 0x45df5c75, 0xdcd60dcf, 0xabd13d59,
    0x26d930ac, 0x51de003a, 0xc8d75180, 0xbfd06116, 0x21b4f4b5, 0x56b3c423,
    0xcfba9599, 0xb8bda50f, 0x2802b89e, 0x5f058808, 0xc60cd9b2, 0xb10be924,
    0x2f6f7c87, 0x58684c11, 0xc1611dab, 0xb6662d3d, 0x76dc4190, 0x01db7106,
    0x98d220bc, 0xefd5102a, 0x71b18589, 0x06b6b51f, 0x9fbfe4a5, 0xe8b8d433,
    0x7807c9a2, 0x0f00f934, 0x9609a88e, 0xe10e9818, 0x7f6a0dbb, 0x086d3d2d,
    0x91646c97, 0xe6635c01, 0x6b6b51f4, 0x1c6c6162, 0x856530d8, 0xf262004e,
    0x6c0695ed, 0x1b01a57b, 0x8208f4c1, 0xf50fc457, 0x65b0d9c6, 0x12b7e950,
    0x8bbeb8ea, 0xfcb9887c, 0x62dd1ddf, 0x15da2d49, 0x8cd37cf3, 0xfbd44c65,
    0x4db26158, 0x3ab551ce, 0xa3bc0074, 0xd4bb30e2, 0x4adfa541, 0x3dd895d7,
    0xa4d1c46d, 0xd3d6f4fb, 0x4369e96a, 0x346ed9fc, 0xad678846, 0xda60b8d0,
    0x44042d73, 0x33031de5, 0xaa0a4c5f, 0xdd0d7cc9, 0x5005713c, 0x270241aa,
    0xbe0b1010, 0xc90c2086, 0x5768b525, 0x206f85b3, 0xb966d409, 0xce61e49f,
    0x5edef90e, 0x29d9c998, 0xb0d09822, 0xc7d7a8b4, 0x59b33d17, 0x2eb40d81,
    0xb7bd5c3b, 0xc0ba6cad, 0xedb88320, 0x9abfb3b6, 0x03b6e20c, 0x74b1d29a,
    0xead54739, 0x9dd277af, 0x04db2615, 0x73dc1683, 0xe3630b12, 0x94643b84,
    0x0d6d6a3e, 0x7a6a5aa8, 0xe40ecf0b, 0x9309ff9d, 0x0a00ae27, 0x7d079eb1,
    0xf00f9344, 0x8708a3d2, 0x1e01f268, 0x6906c2fe, 0xf762575d, 0x806567cb,
    0x196c3671, 0x6e6b06e7, 0xfed41b76, 0x89d32be0, 0x10da7a5a, 0x67dd4acc,
    0xf9b9df6f, 0x8ebeeff9, 0x17b7be43, 0x60b08ed5, 0xd6d6a3e8, 0xa1d1937e,
    0x38d8c2c4, 0x4fdff252, 0xd1bb67f1, 0xa6bc5767, 0x3fb506dd, 0x48b2364b,
    0xd80d2bda, 0xaf0a1b4c, 0x36034af6, 0x41047a60, 0xdf60efc3, 0xa867df55,
    0x316e8eef, 0x4669be79, 0xcb61b38c, 0xbc66831a, 0x256fd2a0, 0x5268e236,
    0xcc0c7795, 0xbb0b4703, 0x220216b9, 0x5505262f, 0xc5ba3bbe, 0xb2bd0b28,
    0x2bb45a92, 0x5cb36a04, 0xc2d7ffa7, 0xb5d0cf31, 0x2cd99e8b, 0x5bdeae1d,
    0x9b64c2b0, 0xec63f226, 0x756aa39c, 0x026d930a, 0x9c0906a9, 0xeb0e363f,
    0x72076785, 0x05005713, 0x95bf4a82, 0xe2b87a14, 0x7bb12bae, 0x0cb61b38,
    0x92d28e9b, 0xe5d5be0d, 0x7cdcefb7, 0x0bdbdf21, 0x86d3d2d4, 0xf1d4e242,
    0x68ddb3f8, 0x1fda836e, 0x81be16cd, 0xf6b9265b, 0x6fb077e1, 0x18b74777,
    0x88085ae6, 0xff0f6a70, 0x66063bca, 0x11010b5c, 0x8f659eff, 0xf862ae69,
    0x616bffd3, 0x166ccf45, 0xa00ae278, 0xd70dd2ee, 0x4e048354, 0x3903b3c2,
    0xa7672661, 0xd06016f7, 0x4969474d, 0x3e6e77db, 0xaed16a4a, 0xd9d65adc,
    0x40df0b66, 0x37d83bf0, 0xa9bcae53, 0xdebb9ec5, 0x47b2cf7f, 0x30b5ffe9,
    0xbdbdf21c, 0xcabac28a, 0x53b39330, 0x24b4a3a6, 0xbad03605, 0xcdd70693,
    0x54de5729, 0x23d967bf, 0xb3667a2e, 0xc4614ab8, 0x5d681b02, 0x2a6f2b94,
    0xb40bbe37, 0xc30c8ea1, 0x5a05df1b, 0x2d02ef8d]

/-- One `DO1(buf)` step of `nv_crc32`. -/
def crcStep (crc : UInt32) (b : UInt8) : UInt32 :=
  crcTable.getD ((crc ^^^ b.toUInt32) &&& 0xff).toNat 0 ^^^ (crc >>> 8)

/-- `nv_crc32(crc, buf, len)`; the eight-fold unrolling of the C loop is not
    repeated.  The library's `crc32` has the same table and the same steps. -/
def nvCrc32 (crc : UInt32) (buf : List UInt8) : UInt32 :=
  buf.foldl crcStep (crc ^^^ 0xffffffff) ^^^ 0xffffffff

/-- The four bytes of the CRC word as they lie in (little-endian) memory. -/
def crcToBytes (crc : UInt32) : List UInt8 :=
  let n := crc.toNat
  [UInt8.ofNat n, UInt8.ofNat (n / 2 ^ 8), UInt8.ofNat (n / 2 ^ 16), UInt8.ofNat (n / 2 ^ 24)]

/-- The CRC word read back from four bytes of memory. -/
def crcOfBytes : List UInt8 → UInt32
  | [b0, b1, b2, b3] =>
    UInt32.ofNat (b0.toNat + b1.toNat * 2 ^ 8 + b2.toNat * 2 ^ 16 + b3.toNat * 2 ^ 24)
  | _ => 0

@[simp] theorem length_crcToBytes (crc : UInt32) : (crcToBytes crc).length = sizeofCrc := rfl

@[simp] theorem crcOfBytes_crcToBytes (crc : UInt32) : crcOfBytes (crcToBytes crc) = crc := by
  have h := crc.toNat_lt
  apply UInt32.toNat_inj.mp
  simp only [crcToBytes, crcOfBytes, UInt32.toNat_ofNat', UInt8.toNat_ofNat']
  omega

/-! ## The environment cache -/

structure CacheEntry where
  name : CStr
  value : Option CStr
  deriving DecidableEq

/-- `cache_idx`: position of the first slot of that name. -/
def cacheIdx (cache : List CacheEntry) (name : CStr) : Option Nat :=
  cache.findIdx? (fun e => e.name == name)

/-- What a lookup by name sees: the value of the first slot of that name, if it
    has one. -/
def cacheLookup (cache : List CacheEntry) (name : CStr) : Option CStr :=
  (cache.find? (fun e => e.name == name)).bind (·.value)

/-- Which of the two `kstrdup` calls of a `nvram_set` succeed. -/
structure Kstrdup where
  name : Bool
  value : Bool
  deriving DecidableEq

/-- Both copies are allocated. -/
def Kstrdup.ok : Kstrdup := ⟨true, true⟩

/-- `kstrdup(value)`: `NULL` when the allocation fails. -/
def Kstrdup.dupValue (k : Kstrdup) (value : CStr) : Option CStr :=
  if k.value then some value else none

/-- Replace the value of the first slot of that name. -/
def cacheReplace (cache : List CacheEntry) (name : CStr) (value : Option CStr) :
    List CacheEntry :=
  match cacheIdx cache name with
  | some i => cache.modify i fun e => { e with value := value }
  | none => cache

/-! ### Lookup and replacement -/

variable {cache : List CacheEntry} {name : CStr}

theorem cacheIdx_eq_none_iff : cacheIdx cache name = none ↔ name ∉ cache.map (·.name) := by
  simp only [cacheIdx, findIdx?_eq_none_iff, mem_map, not_exists, not_and]
  constructor
  · intro h e he hname
    have := h e he
    simp [hname] at this
  · intro h e he
    simpa using h e he

theorem cacheReplace_cons (e : CacheEntry) (es : List CacheEntry) (name : CStr)
    (value : Option CStr) :
    cacheReplace (e :: es) name value =
      if e.name = name then { e with value := value } :: es
      else e :: cacheReplace es name value := by
  by_cases he : e.name = name
  · simp [cacheReplace, cacheIdx, findIdx?_cons, he]
  · have hb : (e.name == name) = false := by simpa using he
    simp only [cacheReplace, cacheIdx, findIdx?_cons, hb, he, if_false]
    cases es.findIdx? (fun e => e.name == name) <;> simp

@[simp] theorem map_name_cacheReplace (cache : List CacheEntry) (name : CStr)
    (value : Option CStr) : (cacheReplace cache name value).map (·.name) = cache.map (·.name) := by
  induction cache with
  | nil => rfl
  | cons e es ih =>
    rw [cacheReplace_cons]
    split
    · rfl
    · simp [ih]

@[simp] theorem length_cacheReplace (cache : List CacheEntry) (name : CStr)
    (value : Option CStr) : (cacheReplace cache name value).length = cache.length := by
  rw [← length_map (·.name), map_name_cacheReplace, length_map]

@[simp] theorem cacheLookup_nil (name : CStr) : cacheLookup [] name = none := rfl

theorem cacheLookup_cons (e : CacheEntry) (es : List CacheEntry) (name : CStr) :
    cacheLookup (e :: es) name = if e.name = name then e.value else cacheLookup es name := by
  by_cases he : e.name = name
  · simp [cacheLookup, he]
  · have hb : (e.name == name) = false := by simpa using he
    simp [cacheLookup, hb, he]

theorem cacheLookup_cacheReplace
    (hmem : name ∈ cache.map (·.name)) (value : Option CStr) (n : CStr) :
    cacheLookup (cacheReplace cache name value) n =
      if n = name then value else cacheLookup cache n := by
  induction cache with
  | nil => simp at hmem
  | cons e es ih =>
    rw [cacheReplace_cons]
    -- the first slot of the name is replaced, and a lookup stops there too
    by_cases he : e.name = name
    · subst he
      simp only [if_true, cacheLookup_cons]
      by_cases hn : e.name = n
      · simp [hn]
      · simp [hn, Ne.symm hn]
    · have hmem' : name ∈ es.map (·.name) := by
        rw [map_cons, mem_cons] at hmem
        exact hmem.resolve_left (Ne.symm he)
      simp only [he, if_false, cacheLookup_cons, ih hmem']
      by_cases hn : e.name = n
      · subst hn
        simp [he]
      · simp [hn]

theorem cacheLookup_append_fresh
    (hmem : name ∉ cache.map (·.name)) (value : Option CStr) (n : CStr) :
    cacheLookup (cache ++ [⟨name, value⟩]) n =
      if n = name then value else cacheLookup cache n := by
  induction cache with
  | nil =>
    simp only [nil_append, cacheLookup_cons, cacheLookup_nil]
    by_cases hn : n = name
    · simp [hn]
    · simp [hn, Ne.symm hn]
  | cons e es ih =>
    rw [map_cons, mem_cons, not_or] at hmem
    rw [cons_append, cacheLookup_cons, cacheLookup_cons, ih hmem.2]
    by_cases hn : n = name
    · subst hn
      simp [Ne.symm hmem.1]
    · simp [hn]

theorem cacheLookup_eq_none_of_not_mem
    (h : name ∉ cache.map (·.name)) : cacheLookup cache name = none := by
  induction cache with
  | nil => rfl
  | cons e es ih =>
    rw [map_cons, mem_cons, not_or] at h
    rw [cacheLookup_cons, if_neg (Ne.symm h.1), ih h.2]

end RalinkSdk.Nvram
