import RalinkSdk.Nvram.Basic

/-!
# The kernel NVRAM driver (`arch/mips/rt2880/nvram.c`)

Block-level bodies of `init_nvram_block`, `ra_nvram_close`, `nvram_clear`,
`nvram_commit`, `nvram_set`, `nvram_get` and `nvram_getall`.  The index checks and
the `ioctl` dispatcher on top of them are in `RalinkSdk.Nvram.Library`.

`nvram_sem` serialises the calls, so each of them is one atomic step.  The
buffer `env.data` is scratch space: every user fills it before reading it.  Its
allocation is taken to succeed; the two `kstrdup` calls of `nvram_set` may fail.
Stores behind the end of `env.data` are kept (`spill`), since the C code performs
them; reads behind its end are reported (`overrun`).
-/

namespace RalinkSdk.Nvram

open Lib

/-! ## Serialising the cache -/

/-- The bytes `snprintf(p, l, "%s=%s", name, value)` stores, with the `l` of the
    source: the text and its NUL. -/
def entryBytes (name value : CStr) : List UInt8 :=
  name.bytes ++ 0x3d :: (value.bytes ++ [0])

/-- State of the construction of an env block: memory from `env.data` on, the
    write position, and whether the capacity check stopped the loop. -/
structure EnvBuild where
  mem : List UInt8
  p : Nat
  full : Bool

/-- The loop of `nvram_commit` and `nvram_getall` over the cache. -/
def buildEnv (flashMaxLen : Nat) : List CacheEntry → Nat → List UInt8 → EnvBuild
  | [], p, mem => ⟨mem, p, false⟩
  | e :: es, p, mem =>
    match e.value with
    | none => ⟨mem, p, false⟩
    | some value =>
      let l := e.name.strlen + value.strlen + 2
      -- the check looks at the bytes already written, not at `l`
      if flashMaxLen ≤ p + 2 then ⟨mem, p, true⟩
      else buildEnv flashMaxLen es (p + l) (memWrite mem p (entryBytes e.name value))

/-- "construct env block": zero the buffer, run the loop, store the ending NUL. -/
def constructEnv (g : FlashBlock) (cache : List CacheEntry) : EnvBuild :=
  let b := buildEnv g.flashMaxLen cache 0 (List.replicate g.dataLen 0)
  if b.full then b else { b with mem := memWrite b.mem b.p [0] }

/-- The `len` bytes of the buffer itself. -/
def EnvBuild.data (b : EnvBuild) (g : FlashBlock) : List UInt8 := b.mem.take g.dataLen

/-- What was stored behind the end of the buffer. -/
def EnvBuild.spill (b : EnvBuild) (g : FlashBlock) : List UInt8 := b.mem.drop g.dataLen

/-- The two flash writes of a commit, in order: the CRC word, then the data area. -/
def commitWrites (g : FlashBlock) (data : List UInt8) : List (Nat × List UInt8) :=
  [(g.flashOffset, crcToBytes (nvCrc32 0 data)), (g.flashOffset + sizeofCrc, data)]

/-- Perform flash writes in order. -/
def applyWrites (write : Flash → Nat → List UInt8 → Flash) (flash : Flash)
    (ws : List (Nat × List UInt8)) : Flash :=
  ws.foldl (fun f w => write f w.1 w.2) flash

/-! ## Parsing an env block -/

/-- Result of parsing: the entries stored in the cache, and whether a string
    search left the buffer. -/
structure EnvParse where
  entries : List CacheEntry
  overrun : Bool
  deriving DecidableEq

/-- The loop "parse env to cache" of `init_nvram_block` and `nvram_init`.
    `j` counts the free cache slots, `s` is the rest of the buffer from `p` on, so
    that `p - env.data + 1 >= len` reads `s.length ≤ 1`. -/
def parseEnv : (j : Nat) → (s : List UInt8) → EnvParse
  | 0, _ => ⟨[], false⟩
  | j + 1, s =>
    match strchr 0x3d s with
    | .overrun => ⟨[], true⟩
    | .null => ⟨[], false⟩
    | .found name s₁ =>
      match strchr 0 s₁ with
      | .overrun => ⟨[], true⟩
      | .null => ⟨[], false⟩
      | .found value s₂ =>
        let e : CacheEntry := ⟨CStr.read name, some (CStr.read value)⟩
        if s₂.length ≤ 1 then ⟨[e], false⟩
        else if s₂.head? = some 0 then ⟨[e], false⟩
        else
          let rest := parseEnv j s₂
          ⟨e :: rest.entries, rest.overrun⟩

/-- Read a block from flash, check its CRC and parse it; `none` on a bad CRC. -/
def loadEnv (g : FlashBlock) (flash : Flash) : Option EnvParse :=
  let crc := crcOfBytes (raMtdReadNm flash g.flashOffset sizeofCrc)
  let data := raMtdReadNm flash (g.flashOffset + sizeofCrc) g.dataLen
  if nvCrc32 0 data ≠ crc then none else some (parseEnv maxCacheEntry data)

/-! ## Block operations -/

/-- The variable part of a `block_t`. -/
structure KBlock where
  geo : FlashBlock
  cache : List CacheEntry
  valid : Bool
  dirty : Bool

/-- A block as it stands before its first initialisation. -/
def KBlock.boot (g : FlashBlock) : KBlock := ⟨g, [], false, false⟩

/-- Result of `init_nvram_block`. -/
structure InitOut where
  ret : Int
  block : KBlock
  overrun : Bool

def initNvramBlock (b : KBlock) (flash : Flash) : InitOut :=
  if b.valid then ⟨-22, b, false⟩
  else
    match loadEnv b.geo flash with
    | none => ⟨-1, { b with valid := true, dirty := false }, false⟩
    | some r =>
      -- the parsed entries overwrite the first slots
      let cache := r.entries ++ b.cache.drop r.entries.length
      ⟨0, { b with cache := cache, valid := true, dirty := false }, r.overrun⟩

def KBlock.checkValid (b : KBlock) (flash : Flash) : KBlock :=
  if b.valid then b else (initNvramBlock b flash).block

/-- `ra_nvram_close`: free the cache of a valid block. -/
def raNvramClose (b : KBlock) : KBlock :=
  if b.valid then { b with cache := [] } else b

/-- Result of an operation that may write the flash. -/
structure FlashOut where
  ret : Int
  block : KBlock
  writes : List (Nat × List UInt8)
  spill : List UInt8

def FlashOut.flash (o : FlashOut) (flash : Flash) : Flash :=
  applyWrites raMtdWriteNm flash o.writes

/-- `nvram_clear`: free the cache and write all ones. -/
def nvramClear (b : KBlock) : FlashOut :=
  let b := raNvramClose b
  let data := List.replicate b.geo.dataLen (0xFF : UInt8)
  ⟨0, { b with dirty := false }, commitWrites b.geo data, []⟩

/-- The body `nvram_commit` has in the driver and, without `CONFIG_KERNEL_NVRAM`,
    in the library. -/
def commitBlock (b : KBlock) (flash : Flash) : FlashOut :=
  let b := b.checkValid flash
  if b.dirty = false then ⟨0, b, [], []⟩
  else
    let env := constructEnv b.geo b.cache
    if env.full then ⟨-1, b, [], env.spill b.geo⟩
    else ⟨0, { b with dirty := false }, commitWrites b.geo (env.data b.geo), env.spill b.geo⟩

def nvramCommit (b : KBlock) (flash : Flash) : FlashOut := commitBlock b flash

/-- `nvram_set`: the return value and the new block. -/
def nvramSet (b : KBlock) (flash : Flash) (alloc : Kstrdup) (name value : CStr) :
    Int × KBlock :=
  let b := b.checkValid flash
  match cacheIdx b.cache name with
  | none =>
    if b.cache.length = maxCacheEntry then (-1, b)
    else
      -- a slot whose name could not be copied stays unnamed
      let cache :=
        if alloc.name then b.cache ++ [⟨name, alloc.dupValue value⟩] else b.cache
      (0, { b with cache := cache, dirty := true })
  | some _ =>
    (0, { b with cache := cacheReplace b.cache name (alloc.dupValue value), dirty := true })

/-- `nvram_get`: the value found, or `NULL`. -/
def nvramGet (b : KBlock) (flash : Flash) (name : CStr) : Option CStr × KBlock :=
  let b := b.checkValid flash
  (cacheLookup b.cache name, b)

/-- `nvram_getall`: the return value and the env block it builds. -/
def nvramGetall (b : KBlock) (flash : Flash) : Int × EnvBuild × KBlock :=
  let b := b.checkValid flash
  let env := constructEnv b.geo b.cache
  (if env.full then -1 else 0, env, b)

end RalinkSdk.Nvram
