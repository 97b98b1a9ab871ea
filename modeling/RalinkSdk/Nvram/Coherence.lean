import RalinkSdk.Nvram.Commit

/-!
# The library against the driver

What one call of the library does to the driver's cache and to the private cache
of `nvram_env.c`.
-/

namespace RalinkSdk.Nvram

open Lib List Option

/-! ## The block an operation finds -/

/-- Block `i` after `RANV_CHECK_VALID`. -/
def Kernel.eff (k : Kernel) (i : Nat) : KBlock := (k.fb i).checkValid k.flash

/-- Two driver states that no operation tells apart. -/
structure Kernel.Same (k k' : Kernel) : Prop where
  dualImage : k'.dualImage = k.dualImage
  flash : k'.flash = k.flash
  eff : ∀ i, k'.eff i = k.eff i

theorem Kernel.Same.refl (k : Kernel) : k.Same k := ⟨rfl, rfl, fun _ => rfl⟩

theorem Kernel.Same.indexOk {k k' : Kernel} (h : k.Same k') (index : Int) :
    k'.indexOk index = k.indexOk index := by
  simp [Kernel.indexOk, h.dualImage]

@[simp] theorem Kernel.eff_valid (k : Kernel) (i : Nat) : (k.eff i).valid = true :=
  checkValid_valid _ _

theorem Kernel.eff_setBlock (k : Kernel) {i : Nat} {b : KBlock} (hb : b.valid = true) (j : Nat) :
    (k.setBlock i b).eff j = if j = i then b else k.eff j := by
  by_cases hj : j = i
  · subst hj
    simp [Kernel.eff, Kernel.setBlock, checkValid_of_valid hb]
  · simp [Kernel.eff, Kernel.setBlock, hj]

theorem Kernel.same_setBlock_eff (k : Kernel) (i : Nat) : k.Same (k.setBlock i (k.eff i)) where
  dualImage := rfl
  flash := rfl
  eff := fun j => by
    rw [k.eff_setBlock (k.eff_valid i)]
    split
    · rename_i h
      rw [h]
    · rfl

variable {index : Int}

theorem Kernel.nvramGet_spec (k : Kernel) (hidx : k.indexOk index = true) (name : CStr) :
    (k.nvramGet index name).1 = cacheLookup (k.eff index.toNat).cache name ∧
      k.Same (k.nvramGet index name).2 := by
  simp only [Kernel.nvramGet, hidx, if_true]
  exact ⟨rfl, k.same_setBlock_eff _⟩

theorem Kernel.nvramGetall_same (k : Kernel) (index : Int) : k.Same (k.nvramGetall index).2.2 := by
  by_cases hidx : k.indexOk index = true
  · simp only [Kernel.nvramGetall, hidx, if_true]
    exact k.same_setBlock_eff _
  · simp only [Kernel.nvramGetall, hidx]
    exact Kernel.Same.refl k

/-- The driver can carry out `nvram_set`: the value can be copied, and the name is
    there or there is room for it. -/
def Kernel.CanSet (k : Kernel) (alloc : Kstrdup) (i : Nat) (name : CStr) : Prop :=
  alloc.value = true ∧
    (name ∈ (k.eff i).cache.map (·.name) ∨
      ((k.eff i).cache.length ≠ maxCacheEntry ∧ alloc.name = true))

theorem Kernel.Same.canSet {k k' : Kernel} (h : k.Same k') (alloc : Kstrdup) (i : Nat)
    (name : CStr) : k'.CanSet alloc i name ↔ k.CanSet alloc i name := by
  simp [Kernel.CanSet, h.eff]

section

variable (k : Kernel) (alloc : Kstrdup) {index : Int} (hidx : k.indexOk index = true)
  (name value : CStr)

include hidx

theorem Kernel.nvramSet_fb : ((k.nvramSet alloc index name value).2).fb index.toNat =
      (Nvram.nvramSet (k.fb index.toNat) k.flash alloc name value).2 := by
  simp [Kernel.nvramSet, hidx, Kernel.setBlock]

theorem Kernel.nvramSet_eff (j : Nat) : ((k.nvramSet alloc index name value).2).eff j =
      if j = index.toNat then
        (Nvram.nvramSet (k.fb index.toNat) k.flash alloc name value).2 else k.eff j := by
  simp only [Kernel.nvramSet, hidx, if_true]
  exact k.eff_setBlock (nvramSet_cases _ _ _ _ _).1 j

omit hidx in
theorem Kernel.nvramSet_lookup {i : Nat} (hcan : k.CanSet alloc i name) (n : CStr) :
    cacheLookup (Nvram.nvramSet (k.fb i) k.flash alloc name value).2.cache n =
      if n = name then some value else cacheLookup (k.eff i).cache n := by
  have hdup : alloc.dupValue value = some value := by simp [Kstrdup.dupValue, hcan.1]
  by_cases hmem : name ∈ (k.eff i).cache.map (·.name)
  -- a known name gets the new value in its slot
  · have hsome : cacheIdx (k.eff i).cache name ≠ none := fun h =>
      cacheIdx_eq_none_iff.mp h hmem
    obtain ⟨idx, hidx⟩ := ne_none_iff_exists'.mp hsome
    have hset : (Nvram.nvramSet (k.fb i) k.flash alloc name value).2.cache =
        cacheReplace (k.eff i).cache name (some value) := by
      simp only [Kernel.eff] at hidx ⊢
      simp [Nvram.nvramSet, hidx, hdup]
    rw [hset]
    exact cacheLookup_cacheReplace hmem _ n
  -- a new name needs a free slot and a copy of itself
  · obtain ⟨hroom, halloc⟩ := hcan.2.resolve_left hmem
    have hset : (Nvram.nvramSet (k.fb i) k.flash alloc name value).2.cache =
        (k.eff i).cache ++ [⟨name, some value⟩] := by
      have hidx := cacheIdx_eq_none_iff.mpr hmem
      simp only [Kernel.eff] at hidx hroom ⊢
      simp [Nvram.nvramSet, hidx, hdup, hroom, halloc]
    rw [hset]
    exact cacheLookup_append_fresh hmem _ n

omit hidx in
theorem Kernel.nvramSet_lookup_ne {i : Nat} (hcan : ¬ k.CanSet alloc i name) :
    cacheLookup (Nvram.nvramSet (k.fb i) k.flash alloc name value).2.cache name ≠ some value := by
  by_cases hmem : name ∈ (k.eff i).cache.map (·.name)
  -- a known name fails only when the value is not copied: the slot then holds `NULL`
  · have hvalue : alloc.value = false := by
      by_contra h
      exact hcan ⟨by simpa using h, .inl hmem⟩
    have hsome : cacheIdx (k.eff i).cache name ≠ none := fun h =>
      cacheIdx_eq_none_iff.mp h hmem
    obtain ⟨idx, hidx⟩ := ne_none_iff_exists'.mp hsome
    have hset : (Nvram.nvramSet (k.fb i) k.flash alloc name value).2.cache =
        cacheReplace (k.eff i).cache name none := by
      simp only [Kernel.eff] at hidx ⊢
      simp [Nvram.nvramSet, hidx, Kstrdup.dupValue, hvalue]
    rw [hset, cacheLookup_cacheReplace hmem]
    simp
  · -- an unknown name stays unknown, or is stored with a `NULL` value
    have hidx := cacheIdx_eq_none_iff.mpr hmem
    have hnone := cacheLookup_eq_none_of_not_mem hmem
    simp only [Kernel.eff] at hidx hnone
    by_cases hroom : ((k.fb i).checkValid k.flash).cache.length = maxCacheEntry
    · simp [Nvram.nvramSet, hidx, hroom, hnone]
    · cases halloc : alloc.name with
      | false => simp [Nvram.nvramSet, hidx, hroom, halloc, hnone]
      | true =>
        have hvalue : alloc.value = false := by
          by_contra h
          exact hcan ⟨by simpa using h, .inr ⟨hroom, halloc⟩⟩
        have hlook := cacheLookup_append_fresh hmem none name
        simp only [Kernel.eff] at hlook
        simp [Nvram.nvramSet, hidx, hroom, halloc, Kstrdup.dupValue, hvalue, hlook]

end

/-! ## Loading the private cache -/

/-- `GETALL` can hand the whole cache over: it fits into the buffer, every value is
    there and every name is proper. -/
def Transferable (len : Nat) (cache : List CacheEntry) : Prop :=
  imageLen cache ≤ len ∧ ∀ e ∈ cache, e.value.isSome ∧ e.NoEq

variable {cache : List CacheEntry}

theorem Transferable.envPrefix {len : Nat}
    (h : Transferable len cache) : envPrefix cache = cache := by
  rw [Nvram.envPrefix, takeWhile_eq_self_iff]
  exact fun e he => (h.2 e he).1

theorem Transferable.not_full {g : FlashBlock}
    (h : Transferable g.dataLen cache) : (constructEnv g cache).full = false := by
  rw [← Bool.not_eq_true, constructEnv_full_iff, h.envPrefix]
  have := imageLen_dropLast_le cache
  have := h.1
  omega

theorem Transferable.parseEnv {g : FlashBlock}
    (h : Transferable g.dataLen cache) (hslots : cache.length ≤ maxCacheEntry) :
    parseEnv maxCacheEntry ((constructEnv g cache).data g) = ⟨cache, false⟩ := by
  have hlen := g.two_le_dataLen
  rw [constructEnv_data h.not_full, h.envPrefix]
  exact parseEnv_envData_fits (fun e he => (h.2 e he).1) (fun e he => (h.2 e he).2) hslots
    (by omega) h.1

theorem libNvramInit_same (env : LibEnv) (k : Kernel) (l : LBlock) (index : Int) :
    k.Same (libNvramInit env k l index).2 := by
  unfold libNvramInit
  split
  · exact Kernel.Same.refl k
  · split
    · exact Kernel.Same.refl k
    · exact k.nvramGetall_same index

theorem libNvramInit_cache {env : LibEnv} {k : Kernel} {l : LBlock}
    (hidx : k.indexOk index = true) (hopen : env.initOpen = true) (hvalid : l.valid = false)
    (hcache : l.cache.length ≤ (k.eff index.toNat).cache.length)
    (hgeo : Transferable (k.fb index.toNat).geo.dataLen (k.eff index.toNat).cache)
    (hslots : (k.eff index.toNat).cache.length ≤ maxCacheEntry) :
    (libNvramInit env k l index).1.cache = (k.eff index.toNat).cache := by
  have hparse := hgeo.parseEnv hslots
  have hfull := hgeo.not_full
  simp only [Kernel.eff] at hparse hfull hcache ⊢
  simp [libNvramInit, hvalid, hopen, ralinkNvramIoctl, Kernel.nvramGetall, hidx,
    Nvram.nvramGetall, hfull, hparse, drop_eq_nil_of_le hcache]

/-! ## What a returned 0 means -/

/-- The private cache, once loaded, has neither the name nor room for it. -/
def PrivateFull (env : LibEnv) (k : Kernel) (l : LBlock) (index : Int) (name : CStr) : Prop :=
  name ∉ (libNvramInit env k l index).1.cache.map (·.name) ∧
    (libNvramInit env k l index).1.cache.length = maxCacheEntry

theorem libNvramBufset_ret_iff {env : LibEnv} {k : Kernel} {l : LBlock}
    (hidx : k.indexOk index = true) (hopen : env.callOpen = true)
    (hmalloc : env.alloc.kmalloc = true) (name value : CStr) :
    ((libNvramBufset env k l index name value).ret = 0 ↔ ¬ PrivateFull env k l index name) ∧
      (libNvramBufset env k l index name value).kernel =
        ((libNvramInit env k l index).2.nvramSet env.alloc.dup index name value).2 := by
  simp only [libNvramBufset, hidx, hopen, ralinkNvramIoctl, hmalloc, PrivateFull, if_true,
    Bool.true_eq_false, if_false, Int.lt_irrefl]
  -- past the driver call only the private cache can refuse
  cases hpriv : cacheIdx (libNvramInit env k l index).1.cache name with
  | none =>
    have hmem := cacheIdx_eq_none_iff.mp hpriv
    by_cases hfull : (libNvramInit env k l index).1.cache.length = maxCacheEntry
    · simp [hfull, hmem]
    · simp [hfull]
  | some i =>
    have hmem : name ∈ (libNvramInit env k l index).1.cache.map (·.name) := by
      by_contra h
      rw [cacheIdx_eq_none_iff.mpr h] at hpriv
      simp at hpriv
    simp [hmem]

/-- A 0 from `nvram_bufset` is real: the driver's cache maps the name to the value. -/
def BufsetReal (env : LibEnv) (k : Kernel) (l : LBlock) (index : Int) (name value : CStr) :
    Prop :=
  (libNvramBufset env k l index name value).ret = 0 →
    cacheLookup ((libNvramBufset env k l index name value).kernel.fb index.toNat).cache name =
      some value

theorem bufsetReal_iff (env : LibEnv) (k : Kernel) (l : LBlock) (index : Int) (name value : CStr) :
    BufsetReal env k l index name value ↔
      k.indexOk index = false ∨ env.callOpen = false ∨ env.alloc.kmalloc = false ∨
        PrivateFull env k l index name ∨ k.CanSet env.alloc.dup index.toNat name := by
  -- the early exits return -1 and leave nothing to show
  cases hidx : k.indexOk index with
  | false => simp [BufsetReal, libNvramBufset, hidx]
  | true =>
    cases hopen : env.callOpen with
    | false => simp [BufsetReal, libNvramBufset, hidx, hopen]
    | true =>
      cases hmalloc : env.alloc.kmalloc with
      | false => simp [BufsetReal, libNvramBufset, hidx, hopen, ralinkNvramIoctl, hmalloc]
      | true =>
        obtain ⟨hret, hkernel⟩ := libNvramBufset_ret_iff (l := l) hidx hopen hmalloc name value
        have hsame := libNvramInit_same env k l index
        have hidx' : (libNvramInit env k l index).2.indexOk index = true := by
          rw [hsame.indexOk, hidx]
        have hfb := Kernel.nvramSet_fb (libNvramInit env k l index).2 env.alloc.dup hidx' name value
        rw [BufsetReal, hret, hkernel, hfb, ← hsame.canSet]
        by_cases hfull : PrivateFull env k l index name
        · simp [hfull]
        · by_cases hcan : (libNvramInit env k l index).2.CanSet env.alloc.dup index.toNat name
          · have := Kernel.nvramSet_lookup _ _ name value hcan name
            simp [hcan, this]
          · have := Kernel.nvramSet_lookup_ne _ _ name value hcan
            simp [hcan, hfull, this]

/-- The flash block holds exactly this cache: a start finds it, reading inside the
    buffer. -/
def HeldBy (g : FlashBlock) (flash : Flash) (cache : List CacheEntry) : Prop :=
  (initNvramBlock (KBlock.boot g) flash).overrun = false ∧
    (initNvramBlock (KBlock.boot g) flash).block.cache = cache

theorem heldBy_iff_of_good_crc {g : FlashBlock} {flash : Flash} {r : EnvParse}
    (h : loadEnv g flash = some r) (cache : List CacheEntry) :
    HeldBy g flash cache ↔ loadEnv g flash = some ⟨cache, false⟩ := by
  obtain ⟨c, overrun⟩ := r
  rw [HeldBy, initNvramBlock_boot h, h]
  simp [and_comm]

/-- A 0 from `nvram_commit` is real: the driver's commit succeeded, and the flash
    holds its cache. -/
def CommitReal (env : LibEnv) (k : Kernel) (l : LBlock) (index : Int) : Prop :=
  (libNvramCommit env k l index).ret = 0 →
    ((libNvramInit env k l index).2.nvramCommit index).1 = 0 ∧
      HeldBy (k.fb index.toNat).geo (libNvramCommit env k l index).kernel.flash
        ((libNvramCommit env k l index).kernel.fb index.toNat).cache

theorem loadsAs_self_iff {len : Nat} :
    LoadsAs len ((envPrefix cache).map (·.split)) cache ↔ Transferable len cache := by
  constructor
  · intro h
    -- a cache that is loaded as itself is its own split, so its slots have values and proper names
    have hsplit : cache = (envPrefix cache).map (·.split) := by
      rcases h with ⟨-, h⟩ | ⟨-, hpre, -⟩
      · exact h
      · apply hpre.eq_of_length_le
        rw [length_map]
        exact (envPrefix_sublist cache).length_le
    have hfit : imageLen cache ≤ len := by
      rcases h with ⟨hfit, hc⟩ | ⟨-, -, -, hfit⟩
      · rwa [← hc] at hfit
      · exact hfit
    refine ⟨hfit, ?_⟩
    intro e he
    rw [hsplit] at he
    obtain ⟨d, -, rfl⟩ := List.mem_map.mp he
    exact ⟨rfl, d.split_noEq⟩
  · intro h
    rw [h.envPrefix, map_split_eq_self h.2]
    exact .inl ⟨h.1, rfl⟩

theorem commitBlock_held_iff {b : KBlock} {flash : Flash}
    (hslots : (b.checkValid flash).cache.length ≤ maxCacheEntry) : ((nvramCommit b flash).ret = 0 ∧
        HeldBy b.geo ((nvramCommit b flash).flash flash) (nvramCommit b flash).block.cache) ↔
      if (b.checkValid flash).dirty = true then
        Transferable b.geo.dataLen (b.checkValid flash).cache
      else HeldBy b.geo flash (b.checkValid flash).cache := by
  rw [nvramCommit_block_cache, nvramCommit]
  -- nothing to do, refused, or written
  rcases commitBlock_cases b flash with ⟨hd, h⟩ | ⟨hd, hfull, h⟩ | ⟨hd, hfull, h⟩
  · rw [h]
    simp [hd, FlashOut.flash, applyWrites]
  · rw [h]
    have hnot : ¬ Transferable b.geo.dataLen (b.checkValid flash).cache := fun ht => by
      rw [ht.not_full] at hfull
      simp at hfull
    simp [hd, hnot]
  · rw [h]
    have hlen : ((constructEnv b.geo (b.checkValid flash).cache).data b.geo).length =
        b.geo.dataLen := by
      rw [constructEnv_data hfull, length_envData]
    simp only [FlashOut.flash, hd, if_true, true_and]
    rw [heldBy_iff_of_good_crc (loadEnv_commitWrites b.geo flash hlen),
      loadEnv_construct_iff flash hslots hfull, loadsAs_self_iff]

theorem commitReal_iff {env : LibEnv} {k : Kernel} {l : LBlock}
    (hslots : (k.eff index.toNat).cache.length ≤ maxCacheEntry) : CommitReal env k l index ↔
      k.indexOk index = false ∨ env.callOpen = false ∨
        if (k.eff index.toNat).dirty = true then
          Transferable (k.fb index.toNat).geo.dataLen (k.eff index.toNat).cache
        else HeldBy (k.fb index.toNat).geo k.flash (k.eff index.toNat).cache := by
  cases hidx : k.indexOk index with
  | false => simp [CommitReal, libNvramCommit, hidx]
  | true =>
    cases hopen : env.callOpen with
    | false => simp [CommitReal, libNvramCommit, hidx, hopen]
    | true =>
      have hsame := libNvramInit_same env k l index
      have hidx' : (libNvramInit env k l index).2.indexOk index = true := by
        rw [hsame.indexOk, hidx]
      have heff := hsame.eff index.toNat
      have hgeo : ((libNvramInit env k l index).2.fb index.toNat).geo =
          (k.fb index.toNat).geo := by
        have := congrArg KBlock.geo heff
        simpa [Kernel.eff] using this
      have hvalid : ((libNvramInit env k l index).2.fb index.toNat).checkValid
          (libNvramInit env k l index).2.flash = k.eff index.toNat := heff
      have hheld := commitBlock_held_iff (hvalid ▸ hslots)
      simp only [hvalid] at hheld
      simp only [hgeo, hsame.flash] at hheld
      -- the dispatcher always answers 0, so the whole question is the driver's
      simp only [CommitReal, libNvramCommit, hidx, hopen, ralinkNvramIoctl, Kernel.nvramCommit,
        hidx', if_true, Bool.true_eq_false, if_false, Int.lt_irrefl, forall_const, false_or,
        Kernel.setBlock, Function.update_self, hsame.flash]
      exact hheld

/-- A driver whose blocks all wait to be committed with this cache. -/
def Kernel.pending (cache : List CacheEntry) : Kernel :=
  ⟨false, fun i => ⟨(fbTable false).getD i rtdevBlock, cache, true, true⟩, fun _ => 0xFF⟩

@[simp] theorem Kernel.pending_eff (cache : List CacheEntry) (i : Nat) :
    (Kernel.pending cache).eff i = ⟨(fbTable false).getD i rtdevBlock, cache, true, true⟩ := by
  simp [Kernel.eff, Kernel.pending, KBlock.checkValid]

theorem letters_inj {m n : Nat} (h : letters m = letters n) : m = n := by
  have := congrArg CStr.strlen h
  simpa using this

/-- A cache of `n` different names. -/
def crowd (n : Nat) : List CacheEntry := (List.range n).map fun i => ⟨letters i, some (letters 1)⟩

@[simp] theorem length_crowd (n : Nat) : (crowd n).length = n := by
  simp [crowd]

theorem not_mem_crowd (n : Nat) : letters n ∉ (crowd n).map (·.name) := by
  simp only [crowd, List.map_map, List.mem_map, mem_range, Function.comp, not_exists, not_and]
  intro i hi h
  have := letters_inj h
  omega

end RalinkSdk.Nvram
