import RalinkSdk.Nvram.Kernel

/-!
# The `ioctl` layer and the user-space library (`lib/libnvram/nvram_env.c`)

On top of the block operations of the driver:

1. the driver's entry points with their index checks,
2. `ralink_nvram_ioctl`, which reaches them from user space, and
3. the library calls `nvram_init`, `nvram_bufget`, `nvram_bufset` and
   `nvram_commit` built with `CONFIG_KERNEL_NVRAM`, plus the `nvram_commit` built
   without it.

What the environment decides is an argument: whether `/dev/nvram` opens, whether
the allocations of a `SET` request succeed, and what an uninitialised `malloc`
buffer holds.  User pointers are valid (`copy_to_user` and `copy_from_user`
succeed) and user-space allocations succeed.
-/

namespace RalinkSdk.Nvram

open Lib

/-! ## The driver's entry points -/

/-- State of the driver: `fb[]` and the flash partition behind it. -/
structure Kernel where
  dualImage : Bool
  fb : Nat → KBlock
  flash : Flash

def flashBlockNum (dualImage : Bool) : Nat := (fbTable dualImage).length

/-- `RANV_CHECK_INDEX` / `LIBNV_CHECK_INDEX`: the index is in range. -/
def Kernel.indexOk (k : Kernel) (index : Int) : Bool :=
  decide (0 ≤ index ∧ index < flashBlockNum k.dualImage)

/-- Store a block back. -/
def Kernel.setBlock (k : Kernel) (i : Nat) (b : KBlock) : Kernel :=
  { k with fb := Function.update k.fb i b }

def Kernel.nvramGet (k : Kernel) (index : Int) (name : CStr) : Option CStr × Kernel :=
  if k.indexOk index then
    let r := Nvram.nvramGet (k.fb index.toNat) k.flash name
    (r.1, k.setBlock index.toNat r.2)
  else (none, k)

/-- `nvram_getall(index, env.data)`; the bytes are those of the buffer. -/
def Kernel.nvramGetall (k : Kernel) (index : Int) : Int × List UInt8 × Kernel :=
  if k.indexOk index then
    let r := Nvram.nvramGetall (k.fb index.toNat) k.flash
    (r.1, r.2.1.data (k.fb index.toNat).geo, k.setBlock index.toNat r.2.2)
  else (-1, [], k)

/-- `nvram_set(index, name, value)` -/
def Kernel.nvramSet (k : Kernel) (alloc : Kstrdup) (index : Int) (name value : CStr) :
    Int × Kernel :=
  if k.indexOk index then
    let r := Nvram.nvramSet (k.fb index.toNat) k.flash alloc name value
    (r.1, k.setBlock index.toNat r.2)
  else (-1, k)

def Kernel.nvramCommit (k : Kernel) (index : Int) : Int × Kernel :=
  if k.indexOk index then
    let o := Nvram.nvramCommit (k.fb index.toNat) k.flash
    (o.ret, { k.setBlock index.toNat o.block with flash := o.flash k.flash })
  else (-1, k)

def Kernel.nvramClear (k : Kernel) (index : Int) : Int × Kernel :=
  if k.indexOk index then
    let o := Nvram.nvramClear (k.fb index.toNat)
    (o.ret, { k.setBlock index.toNat o.block with flash := o.flash k.flash })
  else (-1, k)

/-! ## `ralink_nvram_ioctl` -/

/-- The requests of `/dev/nvram`, with the fields of `nvram_ioctl_t` they use. -/
inductive Req where
  | get (index : Int) (name : CStr)
  | getall (index : Int)
  | set (index : Int) (name value : CStr)
  | commit (index : Int)
  | clear (index : Int)

/-- Allocations of a request: the bounce buffer of `SET` and the two copies. -/
structure IoctlAlloc where
  kmalloc : Bool
  dup : Kstrdup

/-- What comes back from the driver: the return value and what was copied to
    `nvr->value` (a string for `GET`, a buffer for `GETALL`, if anything). -/
structure IoctlOut where
  ret : Int
  kernel : Kernel
  str : CStr := CStr.empty
  data : Option (List UInt8) := none

/-- `ralink_nvram_ioctl`.  The results of `nvram_set`, `nvram_commit` and
    `nvram_clear` are not looked at. -/
def ralinkNvramIoctl (k : Kernel) (alloc : IoctlAlloc) : Req → IoctlOut
  | .get index name =>
    let r := k.nvramGet index name
    { ret := 0, kernel := r.2, str := r.1.getD CStr.empty }
  | .getall index =>
    let r := k.nvramGetall index
    { ret := 0, kernel := r.2.2, data := if r.1 = 0 then some r.2.1 else none }
  | .set index name value =>
    if alloc.kmalloc then { ret := 0, kernel := (k.nvramSet alloc.dup index name value).2 }
    else { ret := -12, kernel := k }
  | .commit index => { ret := 0, kernel := (k.nvramCommit index).2 }
  | .clear index => { ret := 0, kernel := (k.nvramClear index).2 }

/-! ## The library, built with `CONFIG_KERNEL_NVRAM` -/

/-- The private `block_t` of a process. -/
structure LBlock where
  cache : List CacheEntry
  valid : Bool
  dirty : Bool

def LBlock.start : LBlock := ⟨[], false, false⟩

/-- What the environment decides about one library call. -/
structure LibEnv where
  /-- `open(NV_DEV)` inside `nvram_init` succeeds -/
  initOpen : Bool
  /-- `open(NV_DEV)` of the call itself succeeds -/
  callOpen : Bool
  /-- content of the `malloc`ed buffer that `GETALL` is to fill -/
  junk : List UInt8
  alloc : IoctlAlloc

/-- The device opens and every allocation succeeds. -/
def LibEnv.good : LibEnv := ⟨true, true, [], ⟨true, Kstrdup.ok⟩⟩

/-- `nvram_init(index)`: load the private cache through `GETALL`.  This is also
    `LIBNV_CHECK_VALID()`. -/
def libNvramInit (env : LibEnv) (k : Kernel) (l : LBlock) (index : Int) : LBlock × Kernel :=
  if l.valid then (l, k)
  else if env.initOpen = false then (l, k)
  else
    let o := ralinkNvramIoctl k env.alloc (.getall index)
    let r := parseEnv maxCacheEntry (o.data.getD env.junk)
    (⟨r.entries ++ l.cache.drop r.entries.length, true, false⟩, o.kernel)

/-- Result of a library call. -/
structure LibOut (α : Type) where
  ret : α
  block : LBlock
  kernel : Kernel

/-- `nvram_bufget(index, name)`: the value comes from the driver, but only for a
    name the private cache knows. -/
def libNvramBufget (env : LibEnv) (k : Kernel) (l : LBlock) (index : Int) (name : CStr) :
    LibOut CStr :=
  if k.indexOk index = false then ⟨CStr.empty, l, k⟩
  else
    let (l, k) := libNvramInit env k l index
    if env.callOpen = false then ⟨CStr.empty, l, k⟩
    else
      let o := ralinkNvramIoctl k env.alloc (.get index name)
      match cacheLookup l.cache name with
      | some _ =>
        ⟨o.str, { l with cache := cacheReplace l.cache name (some o.str) }, o.kernel⟩
      | none => ⟨CStr.empty, l, o.kernel⟩

/-- `nvram_bufset(index, name, value)` -/
def libNvramBufset (env : LibEnv) (k : Kernel) (l : LBlock) (index : Int)
    (name value : CStr) : LibOut Int :=
  if k.indexOk index = false then ⟨-1, l, k⟩
  else
    let (l, k) := libNvramInit env k l index
    if env.callOpen = false then ⟨-1, l, k⟩
    else
      let o := ralinkNvramIoctl k env.alloc (.set index name value)
      if o.ret < 0 then ⟨-1, l, o.kernel⟩
      else
        match cacheIdx l.cache name with
        | none =>
          if l.cache.length = maxCacheEntry then ⟨-1, l, o.kernel⟩
          else
            ⟨0, { l with cache := l.cache ++ [⟨name, some value⟩], dirty := true }, o.kernel⟩
        | some _ =>
          ⟨0, { l with cache := cacheReplace l.cache name (some value), dirty := true }, o.kernel⟩

def libNvramCommit (env : LibEnv) (k : Kernel) (l : LBlock) (index : Int) : LibOut Int :=
  if k.indexOk index = false then ⟨-1, l, k⟩
  else
    let (l, k) := libNvramInit env k l index
    if env.callOpen = false then ⟨-1, l, k⟩
    else
      let o := ralinkNvramIoctl k env.alloc (.commit index)
      if o.ret < 0 then ⟨-1, l, o.kernel⟩
      else ⟨0, { l with dirty := false }, o.kernel⟩

/-! ## The library, built without `CONFIG_KERNEL_NVRAM` -/

/-- `nvram_init(index)` on the flash itself: the text of `init_nvram_block` without a result.  The
    flag is that of a read behind the buffer. -/
def libNvramInitDirect (b : KBlock) (flash : Flash) : KBlock × Bool :=
  let o := initNvramBlock b flash
  (o.block, o.overrun)

/-- `nvram_commit(index)` on the flash itself; `flash_write` performs the writes. -/
def libNvramCommitDirect (b : KBlock) (flash : Flash) : FlashOut := commitBlock b flash

end RalinkSdk.Nvram
