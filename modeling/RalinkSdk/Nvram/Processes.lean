import RalinkSdk.Nvram.Coherence

/-!
# Several processes on one driver

Any number of processes call `nvram_init`, `nvram_bufset` and `nvram_bufget` in any
order.  Each has its own private cache, loaded when the process first needs it; the
driver's cache is shared.  A ghost component of the state records, for every block
and name, the value of the latest `nvram_bufset` that reported success.
-/

namespace RalinkSdk.Nvram

open Lib List Option

/-! ## The system -/

/-- The driver, the private blocks of every process, and the ghost record. -/
structure World where
  kernel : Kernel
  procs : Nat → Int → LBlock
  latest : Int → CStr → CStr

/-- A library call of process `pid`. -/
inductive Call where
  | init (env : LibEnv) (pid : Nat) (index : Int)
  | bufset (env : LibEnv) (pid : Nat) (index : Int) (name value : CStr)
  | bufget (env : LibEnv) (pid : Nat) (index : Int) (name : CStr)

/-- Store the private block of one process back. -/
def World.setProc (w : World) (pid : Nat) (index : Int) (l : LBlock) : World :=
  { w with procs := fun p i => if p = pid ∧ i = index then l else w.procs p i }

/-- The value a read of the driver's cache gives. -/
def Kernel.value (k : Kernel) (index : Int) (name : CStr) : CStr :=
  if k.indexOk index = true then
    (cacheLookup (k.eff index.toNat).cache name).getD CStr.empty
  else CStr.empty

/-- One call.  `nvram_init` returns at once for an index out of range. -/
def World.step (w : World) : Call → World
  | .init env pid index =>
    if w.kernel.indexOk index = false then w
    else
      let r := libNvramInit env w.kernel (w.procs pid index) index
      { w.setProc pid index r.1 with kernel := r.2 }
  | .bufset env pid index name value =>
    let o := libNvramBufset env w.kernel (w.procs pid index) index name value
    { w.setProc pid index o.block with
      kernel := o.kernel
      latest :=
        if o.ret = 0 then fun i n => if i = index ∧ n = name then value else w.latest i n
        else w.latest }
  | .bufget env pid index name =>
    let o := libNvramBufget env w.kernel (w.procs pid index) index name
    { w.setProc pid index o.block with kernel := o.kernel }

/-- Before the first call: no process has loaded anything, and the record holds the
    values at start-up. -/
def World.start (k : Kernel) : World := ⟨k, fun _ _ => LBlock.start, k.value⟩

/-- The read returns the recorded value. -/
def World.ReadOk (w : World) : Call → Prop
  | .bufget env pid index name =>
    (libNvramBufget env w.kernel (w.procs pid index) index name).ret = w.latest index name
  | _ => True

/-! ## The condition on a call -/

/-- This call makes the process load its private cache. -/
def LBlock.LoadsNow (l : LBlock) (env : LibEnv) : Prop := l.valid = false ∧ env.initOpen = true

instance (l : LBlock) (env : LibEnv) : Decidable (l.LoadsNow env) :=
  inferInstanceAs (Decidable (_ ∧ _))

/-- `GETALL` can hand over the cache of this block. -/
def Kernel.Loadable (k : Kernel) (index : Int) : Prop :=
  Transferable (k.fb index.toNat).geo.dataLen (k.eff index.toNat).cache

/-- A write that reaches the driver is carried out there and noted in the private
    cache; a read is of a name without a value, or of one the private cache knows. -/
def World.CallOk (w : World) : Call → Prop
  | .init .. => True
  | .bufset env pid index name _ =>
    w.kernel.indexOk index = true → env.callOpen = true → env.alloc.kmalloc = true →
      w.kernel.CanSet env.alloc.dup index.toNat name ∧
        if (w.procs pid index).LoadsNow env then w.kernel.Loadable index
        else
          name ∈ (w.procs pid index).cache.map (·.name) ∨
            (w.procs pid index).cache.length ≠ maxCacheEntry
  | .bufget env pid index name =>
    w.kernel.value index name ≠ CStr.empty →
      env.callOpen = true ∧
        if (w.procs pid index).LoadsNow env then w.kernel.Loadable index
        else (cacheLookup (w.procs pid index).cache name).isSome = true

/-! ## Invariant -/

/-- A block that was not loaded holds different names that `cache` holds too. -/
def LBlock.Within (l : LBlock) (cache : List CacheEntry) : Prop :=
  l.valid = false →
    (l.cache.map (·.name)).Nodup ∧ l.cache.map (·.name) ⊆ cache.map (·.name)

variable {l : LBlock}

theorem LBlock.Within.mono {cache cache' : List CacheEntry} (h : l.Within cache)
    (hsub : cache.map (·.name) ⊆ cache'.map (·.name)) : l.Within cache' :=
  fun hv => ⟨(h hv).1, List.Subset.trans (h hv).2 hsub⟩

variable {cache : List CacheEntry}

theorem LBlock.Within.length_le (h : l.Within cache)
    (hv : l.valid = false) : l.cache.length ≤ cache.length := by
  have := (subperm_of_subset (h hv).1 (h hv).2).length_le
  simpa using this

/-- The record agrees with the driver, what is not loaded yet is known to the driver,
    and the driver's cache keeps to its array. -/
structure World.Coherent (w : World) : Prop where
  record : ∀ index name, w.latest index name = w.kernel.value index name
  unloaded : ∀ pid index, (w.procs pid index).Within (w.kernel.eff index.toNat).cache
  slots : ∀ i, (w.kernel.eff i).cache.length ≤ maxCacheEntry

theorem Kernel.Same.trans {k₁ k₂ k₃ : Kernel} (h : k₁.Same k₂) (h' : k₂.Same k₃) : k₁.Same k₃ where
  dualImage := h'.dualImage.trans h.dualImage
  flash := h'.flash.trans h.flash
  eff := fun i => (h'.eff i).trans (h.eff i)

theorem Kernel.Same.value {k k' : Kernel} (h : k.Same k') (index : Int) (name : CStr) :
    k'.value index name = k.value index name := by
  simp [Kernel.value, h.indexOk, h.eff]

variable {k : Kernel}

theorem World.start_coherent
    (hslots : ∀ i, (k.eff i).cache.length ≤ maxCacheEntry) : (World.start k).Coherent where
  record := fun _ _ => rfl
  unloaded := fun _ _ _ => by simp [World.start, LBlock.start]
  slots := hslots

/-! ## Loading -/

variable {env : LibEnv} {index : Int}

theorem libNvramInit_of_not_loadsNow
    (h : ¬ l.LoadsNow env) : libNvramInit env k l index = (l, k) := by
  unfold libNvramInit
  by_cases hv : l.valid = true
  · simp [hv]
  · have ho : env.initOpen = false := by
      by_contra ho
      exact h ⟨by simpa using hv, by simpa using ho⟩
    simp [hv, ho]

theorem libNvramInit_within (hl : l.Within cache) :
    (libNvramInit env k l index).1.Within cache := by
  by_cases h : l.LoadsNow env
  · intro hv
    simp [libNvramInit, h.1, h.2] at hv
  · rw [libNvramInit_of_not_loadsNow h]
    exact hl

variable {w : World}

theorem World.Coherent.loads (hw : w.Coherent) {pid : Nat} (hidx : w.kernel.indexOk index = true)
    (hnow : (w.procs pid index).LoadsNow env) (hload : w.kernel.Loadable index) :
    (libNvramInit env w.kernel (w.procs pid index) index).1.cache =
      (w.kernel.eff index.toNat).cache :=
  libNvramInit_cache hidx hnow.2 hnow.1 ((hw.unloaded pid index).length_le hnow.1) hload
    (hw.slots _)

theorem World.Coherent.of_same (hw : w.Coherent) (hsame : w.kernel.Same k) (pid : Nat)
    (hl : l.Within (w.kernel.eff index.toNat).cache) :
    World.Coherent { w.setProc pid index l with kernel := k } where
  record := fun i n => by
    show w.latest i n = k.value i n
    -- the driver is the same up to loading, so its values are
    rw [hsame.value]
    exact hw.record i n
  unloaded := fun p i => by
    show (if p = pid ∧ i = index then l else w.procs p i).Within (k.eff i.toNat).cache
    rw [hsame.eff]
    split
    · rename_i h
      rw [h.2]
      exact hl
    · exact hw.unloaded p i
  slots := fun i => by
    show (k.eff i).cache.length ≤ maxCacheEntry
    rw [hsame.eff]
    exact hw.slots i

/-! ## Reads -/

theorem libNvramBufget_spec (env : LibEnv) (k : Kernel) (l : LBlock) (index : Int)
    (name : CStr) (hl : l.Within cache) : k.Same (libNvramBufget env k l index name).kernel ∧
      (libNvramBufget env k l index name).block.Within cache ∧
      (libNvramBufget env k l index name).ret =
        if env.callOpen = true ∧
            (cacheLookup (libNvramInit env k l index).1.cache name).isSome = true then
          k.value index name else CStr.empty := by
  cases hidx : k.indexOk index with
  | false =>
    have hvalue : k.value index name = CStr.empty := by simp [Kernel.value, hidx]
    simp only [libNvramBufget, hidx, if_true, hvalue, ite_self]
    exact ⟨Kernel.Same.refl k, hl, trivial⟩
  | true =>
    have hsame := libNvramInit_same env k l index
    have hl' : (libNvramInit env k l index).1.Within cache := libNvramInit_within hl
    cases hopen : env.callOpen with
    | false =>
      simp only [libNvramBufget, hidx, hopen, if_true, Bool.true_eq_false, if_false,
        Bool.false_eq_true, false_and]
      exact ⟨hsame, hl', trivial⟩
    | true =>
      have hidx' : (libNvramInit env k l index).2.indexOk index = true := by
        rw [hsame.indexOk, hidx]
      obtain ⟨hget, hsame'⟩ := Kernel.nvramGet_spec _ hidx' name
      have hstr : ((libNvramInit env k l index).2.nvramGet index name).1.getD CStr.empty =
          k.value index name := by
        rw [hget, hsame.eff]
        simp [Kernel.value, hidx]
      cases hlook : cacheLookup (libNvramInit env k l index).1.cache name with
      | none =>
        simp only [libNvramBufget, hidx, hopen, Bool.true_eq_false, if_false, ralinkNvramIoctl,
          hlook, isSome_none, Bool.false_eq_true, and_false]
        exact ⟨hsame.trans hsame', hl', trivial⟩
      | some v =>
        simp only [libNvramBufget, hidx, hopen, Bool.true_eq_false, if_false, ralinkNvramIoctl,
          hlook, isSome_some, and_self, if_true, hstr]
        refine ⟨hsame.trans hsame', ?_, trivial⟩
        -- the refreshed value does not change the names
        intro hv
        rw [map_name_cacheReplace]
        exact hl' hv

/-- **Read**: in a coherent state a read that meets the condition returns the
    recorded value. -/
theorem World.Coherent.readOk (hw : w.Coherent) {c : Call} (hc : w.CallOk c) : w.ReadOk c := by
  cases c with
  | init env pid index => trivial
  | bufset env pid index name value => trivial
  | bufget env pid index name =>
    obtain ⟨-, -, hret⟩ := libNvramBufget_spec env w.kernel (w.procs pid index) index name
      (hw.unloaded pid index)
    rw [World.ReadOk, hret, hw.record]
    -- a read of nothing returns nothing in any case
    by_cases hempty : w.kernel.value index name = CStr.empty
    · rw [hempty, ite_self]
    · obtain ⟨hopen, hknown⟩ := hc hempty
      rw [if_pos]
      refine ⟨hopen, ?_⟩
      by_cases hnow : (w.procs pid index).LoadsNow env
      · -- the process loads its cache now, so it knows what the driver knows
        rw [if_pos hnow] at hknown
        have hidx : w.kernel.indexOk index = true := by
          by_contra h
          simp [Kernel.value, h] at hempty
        rw [hw.loads hidx hnow hknown]
        rw [Kernel.value, if_pos hidx] at hempty
        cases hlook : cacheLookup (w.kernel.eff index.toNat).cache name with
        | none => simp [hlook] at hempty
        | some v => rfl
      · rw [if_neg hnow] at hknown
        rw [libNvramInit_of_not_loadsNow hnow]
        exact hknown

/-! ## Writes -/

variable {name value : CStr}

theorem World.CallOk.not_privateFull (hw : w.Coherent) {pid : Nat}
    (hc : w.CallOk (.bufset env pid index name value))
    (hidx : w.kernel.indexOk index = true) (hopen : env.callOpen = true)
    (hmalloc : env.alloc.kmalloc = true) :
    ¬ PrivateFull env w.kernel (w.procs pid index) index name := by
  obtain ⟨hcan, hroom⟩ := hc hidx hopen hmalloc
  rintro ⟨hmem, hfull⟩
  -- a cache loaded by this call is that of the driver, which has room
  by_cases hnow : (w.procs pid index).LoadsNow env
  · rw [if_pos hnow] at hroom
    rw [hw.loads hidx hnow hroom] at hmem hfull
    rcases hcan.2 with h | ⟨h, -⟩
    · exact hmem h
    · exact h hfull
  · rw [if_neg hnow] at hroom
    rw [libNvramInit_of_not_loadsNow hnow] at hmem hfull
    rcases hroom with h | h
    · exact hmem h
    · exact h hfull

theorem nvramSet_grows {b : KBlock} {flash : Flash} (alloc : Kstrdup) (name value : CStr)
    (hslots : (b.checkValid flash).cache.length ≤ maxCacheEntry) :
    (b.checkValid flash).cache.map (·.name) ⊆
        (nvramSet b flash alloc name value).2.cache.map (·.name) ∧
      (nvramSet b flash alloc name value).2.cache.length ≤ maxCacheEntry := by
  obtain ⟨-, h | h | ⟨-, hroom, h⟩⟩ := nvramSet_cases b flash alloc name value
  · rw [h]
    exact ⟨List.Subset.refl _, hslots⟩
  · rw [h, map_name_cacheReplace, length_cacheReplace]
    exact ⟨List.Subset.refl _, hslots⟩
  · rw [h, map_append, length_append]
    refine ⟨subset_append_left _ _, ?_⟩
    simp only [length_cons, length_nil]
    omega

theorem mem_names_of_lookup
    (h : cacheLookup cache name = some value) : name ∈ cache.map (·.name) := by
  by_contra hmem
  rw [cacheLookup_eq_none_of_not_mem hmem] at h
  simp at h

theorem libNvramBufset_within (hl : l.Within cache) (hname : name ∈ cache.map (·.name)) :
    (libNvramBufset env k l index name value).block.Within cache := by
  have hl' : (libNvramInit env k l index).1.Within cache := libNvramInit_within hl
  unfold libNvramBufset
  split
  · exact hl
  · dsimp only
    split
    · exact hl'
    · split
      · exact hl'
      · split
        · rename_i hidx
          split
          · exact hl'
          · -- a new name, which the driver has by now
            intro hv
            obtain ⟨hnodup, hsub⟩ := hl' hv
            have hnew := cacheIdx_eq_none_iff.mp hidx
            rw [map_append]
            refine ⟨hnodup.append (by simp) ?_, ?_⟩
            · intro n hn hn'
              simp only [map_cons, map_nil, mem_singleton] at hn'
              exact hnew (hn' ▸ hn)
            · intro n hn
              rcases mem_append.mp hn with hn | hn
              · exact hsub hn
              · simp only [map_cons, map_nil, mem_singleton] at hn
                rw [hn]
                exact hname
        · intro hv
          rw [map_name_cacheReplace]
          exact hl' hv

theorem libNvramBufset_stopped
    (h : k.indexOk index = false ∨ env.callOpen = false ∨ env.alloc.kmalloc = false)
    (name value : CStr) (hl : l.Within cache) : (libNvramBufset env k l index name value).ret = -1 ∧
      k.Same (libNvramBufset env k l index name value).kernel ∧
      (libNvramBufset env k l index name value).block.Within cache := by
  have hl' : (libNvramInit env k l index).1.Within cache := libNvramInit_within hl
  have hsame := libNvramInit_same env k l index
  -- the three ways a call ends before it reaches the driver's cache
  cases hidx : k.indexOk index with
  | false =>
    simp only [libNvramBufset, hidx, if_true]
    exact ⟨trivial, Kernel.Same.refl k, hl⟩
  | true =>
    cases hopen : env.callOpen with
    | false =>
      simp only [libNvramBufset, hidx, hopen, Bool.true_eq_false, if_false, if_true]
      exact ⟨trivial, hsame, hl'⟩
    | true =>
      have hmalloc : env.alloc.kmalloc = false := by simpa [hidx, hopen] using h
      simp only [libNvramBufset, hidx, hopen, Bool.true_eq_false, if_false, ralinkNvramIoctl,
        hmalloc, Bool.false_eq_true, Int.reduceNeg, Int.reduceLT, if_true]
      exact ⟨trivial, hsame, hl'⟩

/-- What a `SET` request that is carried out does to the driver. -/
structure Kernel.Wrote (k k' : Kernel) (index : Int) (name value : CStr) : Prop where
  values : ∀ i n, k'.value i n = if i = index ∧ n = name then value else k.value i n
  names : ∀ i, (k.eff i).cache.map (·.name) ⊆ (k'.eff i).cache.map (·.name)
  known : name ∈ (k'.eff index.toNat).cache.map (·.name)
  slots : ∀ i, (k'.eff i).cache.length ≤ maxCacheEntry

theorem Kernel.nvramSet_wrote {alloc : Kstrdup} {name : CStr}
    (hidx : k.indexOk index = true) (hcan : k.CanSet alloc index.toNat name)
    (hslots : ∀ i, (k.eff i).cache.length ≤ maxCacheEntry) (value : CStr) :
    k.Wrote (k.nvramSet alloc index name value).2 index name value := by
  have heff := k.nvramSet_eff alloc hidx name value
  have hlook := k.nvramSet_lookup alloc name value hcan
  have hgrows := nvramSet_grows (b := k.fb index.toNat) alloc name value (hslots index.toNat)
  have hidx' : ∀ i, (k.nvramSet alloc index name value).2.indexOk i = k.indexOk i := by
    intro i
    simp only [Kernel.nvramSet, hidx, if_true]
    rfl
  constructor
  · intro i n
    rw [Kernel.value, hidx', heff, Kernel.value]
    by_cases hi : k.indexOk i = true
    · simp only [hi, if_true]
      -- two good indices name the same block only if they are equal
      have hiff : i.toNat = index.toNat ↔ i = index := by
        simp only [Kernel.indexOk, decide_eq_true_eq] at hi hidx
        omega
      by_cases heq : i = index
      · subst heq
        simp only [if_true, hlook, true_and]
        by_cases hn : n = name
        · simp [hn]
        · simp [hn]
      · have : ¬ i.toNat = index.toNat := fun h => heq (hiff.mp h)
        simp [this, heq]
    · have hne : i ≠ index := fun h => hi (h ▸ hidx)
      simp [hi, hne]
  · intro i
    rw [heff]
    split
    · rename_i h
      rw [h]
      exact hgrows.1
    · exact List.Subset.refl _
  · rw [heff, if_pos rfl]
    exact mem_names_of_lookup (by rw [hlook, if_pos rfl])
  · intro i
    rw [heff]
    split
    · exact hgrows.2
    · exact hslots i

/-- **Write**: a write that meets the condition is recorded and carried out alike. -/
theorem World.Coherent.bufset (hw : w.Coherent) {pid : Nat}
    (hc : w.CallOk (.bufset env pid index name value)) :
    (w.step (.bufset env pid index name value)).Coherent := by
  by_cases hstop : w.kernel.indexOk index = false ∨ env.callOpen = false ∨
      env.alloc.kmalloc = false
  · obtain ⟨hret, hsame, hl⟩ := libNvramBufset_stopped hstop name value (hw.unloaded pid index)
    -- the call ended early: no value changes
    have hkeep := hw.of_same hsame pid hl
    have hlatest : (w.step (.bufset env pid index name value)).latest = w.latest := by
      simp [World.step, hret]
    exact ⟨fun i n => hlatest ▸ hkeep.record i n, hkeep.unloaded, hkeep.slots⟩
  · simp only [not_or, Bool.not_eq_false] at hstop
    obtain ⟨hidx, hopen, hmalloc⟩ := hstop
    have hcan := (hc hidx hopen hmalloc).1
    obtain ⟨hret, hkernel⟩ :=
      libNvramBufset_ret_iff (l := w.procs pid index) hidx hopen hmalloc name value
    -- the write is carried out by the driver and known to the process
    have hzero := hret.mpr (hc.not_privateFull hw hidx hopen hmalloc)
    have hsame := libNvramInit_same env w.kernel (w.procs pid index) index
    have hwrote := Kernel.nvramSet_wrote (by rw [hsame.indexOk, hidx])
      ((hsame.canSet ..).mpr hcan) (fun i => by rw [hsame.eff]; exact hw.slots i) value
    rw [← hkernel] at hwrote
    constructor
    · intro i n
      simp only [World.step, hzero, if_true]
      rw [hwrote.values, hsame.value, hw.record]
    · intro p i
      have hmono := hwrote.names i.toNat
      rw [hsame.eff] at hmono
      simp only [World.step, World.setProc]
      split
      · rename_i h
        obtain ⟨rfl, rfl⟩ := h
        exact libNvramBufset_within ((hw.unloaded p i).mono hmono) hwrote.known
      · exact (hw.unloaded p i).mono hmono
    · exact hwrote.slots

/-! ## Runs -/

/-- **Step**: every call that meets the condition keeps the record and the driver
    in agreement. -/
theorem World.Coherent.step (hw : w.Coherent) {c : Call} (hc : w.CallOk c) :
    (w.step c).Coherent := by
  cases c with
  | init env pid index =>
    simp only [World.step]
    split
    · exact hw
    · exact hw.of_same (libNvramInit_same ..) pid (libNvramInit_within (hw.unloaded pid index))
  | bufset env pid index name value => exact hw.bufset hc
  | bufget env pid index name =>
    obtain ⟨hsame, hl, -⟩ := libNvramBufget_spec env w.kernel (w.procs pid index) index name
      (hw.unloaded pid index)
    exact hw.of_same hsame pid hl

/-- A driver with empty caches. -/
def Kernel.empty : Kernel :=
  ⟨false, fun i => ⟨(fbTable false).getD i rtdevBlock, [], true, false⟩, fun _ => 0xFF⟩

@[simp] theorem Kernel.empty_eff (i : Nat) :
    Kernel.empty.eff i = ⟨(fbTable false).getD i rtdevBlock, [], true, false⟩ := by
  simp [Kernel.eff, Kernel.empty, KBlock.checkValid]

theorem Kernel.empty_indexOk : Kernel.empty.indexOk 1 = true := by decide

theorem Kernel.Same.empty_eff (hsame : Kernel.empty.Same k) :
    k.eff 1 = ⟨rtdevBlock, [], true, false⟩ := by
  rw [hsame.eff, Kernel.empty_eff]
  rfl

theorem Kernel.Same.empty_indexOk (hsame : Kernel.empty.Same k) : k.indexOk 1 = true := by
  rw [hsame.indexOk, Kernel.empty_indexOk]

theorem libNvramInit_empty (hsame : Kernel.empty.Same k) :
    (libNvramInit LibEnv.good k LBlock.start 1).1 = ⟨[], true, false⟩ := by
  have heff := hsame.empty_eff
  have hload : Transferable (k.fb (1 : Int).toNat).geo.dataLen (k.eff (1 : Int).toNat).cache := by
    simp [Transferable, heff]
  have hcache : (libNvramInit LibEnv.good k LBlock.start 1).1.cache = (k.eff 1).cache :=
    libNvramInit_cache hsame.empty_indexOk rfl rfl (by simp [LBlock.start]) hload (by simp [heff])
  have hloaded : (libNvramInit LibEnv.good k LBlock.start 1).1 =
      ⟨(libNvramInit LibEnv.good k LBlock.start 1).1.cache, true, false⟩ := by
    simp [libNvramInit, LBlock.start, LibEnv.good]
  rw [hloaded, hcache, heff]

theorem libNvramBufset_empty (hsame : Kernel.empty.Same k) (name value : CStr) :
    (libNvramBufset LibEnv.good k LBlock.start 1 name value).ret = 0 ∧
      (libNvramBufset LibEnv.good k LBlock.start 1 name value).kernel.eff 1 =
        ⟨rtdevBlock, [⟨name, some value⟩], true, true⟩ := by
  have hsame' := hsame.trans (libNvramInit_same LibEnv.good k LBlock.start 1)
  have hmalloc : LibEnv.good.alloc.kmalloc = true := rfl
  have hdup : LibEnv.good.alloc.dup = Kstrdup.ok := rfl
  obtain ⟨hret, hkernel⟩ :=
    libNvramBufset_ret_iff (l := LBlock.start) hsame.empty_indexOk rfl hmalloc name value
  refine ⟨?_, ?_⟩
  · rw [hret, PrivateFull, libNvramInit_empty hsame]
    simp [maxCacheEntry]
  · have heff := hsame'.empty_eff
    rw [hkernel, hdup, Kernel.nvramSet_eff _ _ hsame'.empty_indexOk name value 1]
    rw [Kernel.eff] at heff
    simp [Nvram.nvramSet, heff, cacheIdx, maxCacheEntry, Kstrdup.ok, Kstrdup.dupValue]

end RalinkSdk.Nvram
