import RalinkSdk.Lib.Run
import RalinkSdk.Nvram.Codec
import RalinkSdk.Nvram.Library

/-!
# Commit and reload

What `init_nvram_block` makes of the flash a `nvram_commit` leaves behind, for
every cache the driver can hold.
-/

namespace RalinkSdk.Nvram

open Lib List

/-! ## Caches the driver can hold -/

/-- Invariant of a cache filled through `nvram_set` with proper names. -/
structure CacheOk (cache : List CacheEntry) : Prop where
  noEq : ∀ e ∈ cache, e.NoEq
  distinct : (cache.map (·.name)).Nodup
  slots : cache.length ≤ maxCacheEntry

theorem CacheOk.nil : CacheOk [] := by
  constructor <;> simp [maxCacheEntry]

theorem CacheOk.sublist {es cache : List CacheEntry} (h : CacheOk cache)
    (hs : es.Sublist cache) : CacheOk es where
  noEq := fun e he => h.noEq e (hs.subset he)
  distinct := h.distinct.sublist (hs.map _)
  slots := hs.length_le.trans h.slots

/-- A slot whose value is a nonempty string. -/
def CacheEntry.live (e : CacheEntry) : Bool := !e.text.bytes.isEmpty

/-! ## Reading a committed block back -/

/-- A block of the flash holds a data area with its CRC. -/
structure BlockHolds (g : FlashBlock) (flash : Flash) (data : List UInt8) : Prop where
  crc : raMtdReadNm flash g.flashOffset sizeofCrc = crcToBytes (nvCrc32 0 data)
  data : raMtdReadNm flash (g.flashOffset + sizeofCrc) g.dataLen = data

variable {data : List UInt8}

theorem blockHolds_commitWrites (g : FlashBlock) (flash : Flash) (hdata : data.length = g.dataLen) :
    BlockHolds g (applyWrites raMtdWriteNm flash (commitWrites g data)) data := by
  have hg := g.dataLen_add
  have hsec := g.in_sector
  have hcrc := length_crcToBytes (nvCrc32 0 data)
  -- both writes stay in the sector, so they are plain stores
  have hflash : applyWrites raMtdWriteNm flash (commitWrites g data) =
      (flash.store g.flashOffset (crcToBytes (nvCrc32 0 data))).store
        (g.flashOffset + sizeofCrc) data := by
    simp only [applyWrites, commitWrites, foldl_cons, foldl_nil]
    rw [raMtdWriteNm_eq_store _ (by omega), raMtdWriteNm_eq_store _ (by omega)]
  constructor
  · rw [hflash, raMtdReadNm_store_disjoint _ (.inl le_rfl)]
    exact raMtdReadNm_store_same _ _ _
  · rw [hflash, ← hdata]
    exact raMtdReadNm_store_same _ _ _

variable {g : FlashBlock} {flash : Flash}

theorem BlockHolds.loadEnv (h : BlockHolds g flash data) :
    loadEnv g flash = some (parseEnv maxCacheEntry data) := by
  simp [Nvram.loadEnv, h.crc, h.data]

theorem loadEnv_commitWrites (g : FlashBlock) (flash : Flash) (hdata : data.length = g.dataLen) :
    loadEnv g (applyWrites raMtdWriteNm flash (commitWrites g data)) =
      some (parseEnv maxCacheEntry data) :=
  (blockHolds_commitWrites g flash hdata).loadEnv

/-- **Reload of a commit**: what the loader makes of the flash after the two writes. -/
theorem loadEnv_construct_iff {cache c : List CacheEntry} (flash : Flash)
    (hslots : cache.length ≤ maxCacheEntry) (hfull : (constructEnv g cache).full = false) :
    loadEnv g (applyWrites raMtdWriteNm flash
        (commitWrites g ((constructEnv g cache).data g))) = some ⟨c, false⟩ ↔
      LoadsAs g.dataLen ((envPrefix cache).map (·.split)) c := by
  rw [constructEnv_data hfull, loadEnv_commitWrites g flash (length_envData _ _), Option.some_inj]
  exact parseEnv_envData_split_iff ((envPrefix_sublist cache).length_le.trans hslots)
    g.two_le_dataLen

variable {cache : List CacheEntry}

theorem CacheOk.map_split (h : CacheOk cache) : (envPrefix cache).map (·.split) = envPrefix cache :=
  map_split_eq_self fun e he =>
    ⟨isSome_of_mem_envPrefix he, h.noEq e ((envPrefix_sublist cache).subset he)⟩

/-! ## Round trip of one commit -/

/-- `init_nvram_block` on a fresh block accepts the CRC in `flash` and rebuilds
    `cache`: the slots with a nonempty value in order, nothing that was not there,
    no name twice, and without a read behind the buffer. -/
structure RoundTrip (g : FlashBlock) (flash : Flash) (cache : List CacheEntry) : Prop where
  accepted : (initNvramBlock (.boot g) flash).ret = 0
  inside : (initNvramBlock (.boot g) flash).overrun = false
  same : (initNvramBlock (.boot g) flash).block.cache.filter (·.live) =
    cache.filter (·.live)
  noOther : (initNvramBlock (.boot g) flash).block.cache.Sublist cache
  distinct : ((initNvramBlock (.boot g) flash).block.cache.map (·.name)).Nodup

/-- The cache survives a commit into `len` data bytes: all that does not come back
    has no value. -/
def Storable (len : Nat) (cache : List CacheEntry) : Prop :=
  ∃ c, LoadsAs len (envPrefix cache) c ∧ ∀ e ∈ cache.drop c.length, e.live = false

theorem LoadsAs.isPrefix {len : Nat} {cache c : List CacheEntry}
    (h : LoadsAs len (envPrefix cache) c) : c <+: cache := by
  have hE : envPrefix cache <+: cache := takeWhile_prefix _
  rcases h with ⟨-, rfl⟩ | ⟨-, hc, -⟩
  · exact hE
  · exact hc.trans hE

theorem initNvramBlock_boot {c : List CacheEntry}
    {overrun : Bool} (h : loadEnv g flash = some ⟨c, overrun⟩) :
    initNvramBlock (KBlock.boot g) flash = ⟨0, ⟨g, c, true, false⟩, overrun⟩ := by
  simp [initNvramBlock, KBlock.boot, h]

theorem roundTrip_iff_loadEnv (hok : CacheOk cache)
    (hpre : ∀ c, loadEnv g flash = some ⟨c, false⟩ → c <+: cache) : RoundTrip g flash cache ↔
      ∃ c, loadEnv g flash = some ⟨c, false⟩ ∧ ∀ e ∈ cache.drop c.length, e.live = false := by
  -- a prefix loses nothing of value iff what it leaves out has none
  have hfilter : ∀ c, c <+: cache → (c.filter (·.live) = cache.filter (·.live) ↔
      ∀ e ∈ cache.drop c.length, e.live = false) := by
    rintro c ⟨d, rfl⟩
    simp [filter_eq_nil_iff]
  constructor
  · intro h
    cases hload : loadEnv g flash with
    | none =>
      have := h.accepted
      simp [initNvramBlock, KBlock.boot, hload] at this
    | some r =>
      have hin := h.inside
      simp only [initNvramBlock, KBlock.boot, hload] at hin
      have hr : r = ⟨r.entries, false⟩ := by
        cases r
        simp_all
      rw [hr] at hload ⊢
      have hsame := h.same
      rw [initNvramBlock_boot hload] at hsame
      exact ⟨_, rfl, (hfilter _ (hpre _ hload)).mp hsame⟩
  · rintro ⟨c, hload, hlive⟩
    have hc := hpre c hload
    constructor
    all_goals rw [initNvramBlock_boot hload]
    · exact (hfilter c hc).mpr hlive
    · exact hc.sublist
    · exact (hok.sublist hc.sublist).distinct

/-- **Round trip of one construction**: it holds exactly of the storable caches. -/
theorem roundTrip_construct_iff (flash : Flash)
    (hok : CacheOk cache) (hfull : (constructEnv g cache).full = false) :
    RoundTrip g (applyWrites raMtdWriteNm flash
        (commitWrites g ((constructEnv g cache).data g))) cache ↔
      Storable g.dataLen cache := by
  have hload := fun c => loadEnv_construct_iff (c := c) flash hok.slots hfull
  simp only [hok.map_split] at hload
  rw [roundTrip_iff_loadEnv hok fun c hc => ((hload c).mp hc).isPrefix, Storable]
  simp only [hload]

/-! ## Runs of the driver -/

/-- The operations that change the cache of a block. -/
inductive KOp where
  | set (alloc : Kstrdup) (name value : CStr)
  | clear
  | commit

/-- The names in use hold no `'='`. -/
def KOp.NameOk : KOp → Prop
  | .set _ name _ => (0x3d : UInt8) ∉ name.bytes
  | _ => True

/-- One block and the flash behind it. -/
structure KState where
  block : KBlock
  flash : Flash

/-- The driver handles one operation. -/
def KState.step (s : KState) : KOp → KState
  | .set alloc name value => { s with block := (nvramSet s.block s.flash alloc name value).2 }
  | .clear => ⟨(nvramClear s.block).block, (nvramClear s.block).flash s.flash⟩
  | .commit =>
    ⟨(nvramCommit s.block s.flash).block, (nvramCommit s.block s.flash).flash s.flash⟩

/-- The cache as the next operation finds it is well formed, and a block that is
    still to be initialised has an empty one. -/
structure KState.Ok (s : KState) : Prop where
  cacheOk : CacheOk (s.block.checkValid s.flash).cache
  fresh : s.block.valid = false → s.block.cache = []

@[simp] theorem checkValid_valid (b : KBlock) (flash : Flash) :
    (b.checkValid flash).valid = true := by
  unfold KBlock.checkValid
  split
  · assumption
  · rename_i h
    simp only [initNvramBlock, h]
    cases loadEnv b.geo flash <;> rfl

@[simp] theorem checkValid_geo (b : KBlock) (flash : Flash) : (b.checkValid flash).geo = b.geo := by
  unfold KBlock.checkValid
  split
  · rfl
  · rename_i h
    simp only [initNvramBlock, h]
    cases loadEnv b.geo flash <;> rfl

theorem checkValid_of_valid {b : KBlock} (h : b.valid = true) (flash : Flash) :
    b.checkValid flash = b := by
  simp [KBlock.checkValid, h]

theorem KState.ok_of_valid {s : KState} (hv : s.block.valid = true)
    (hc : CacheOk s.block.cache) : s.Ok where
  cacheOk := by
    rw [checkValid_of_valid hv]
    exact hc
  fresh := fun h => by simp [hv] at h

theorem CacheOk.replace (h : CacheOk cache) (name : CStr)
    (value : Option CStr) : CacheOk (cacheReplace cache name value) := by
  have hnames : ∀ e ∈ cacheReplace cache name value, ∃ e' ∈ cache, e'.name = e.name := by
    intro e he
    have hmem := mem_map_of_mem (f := (·.name)) he
    rw [map_name_cacheReplace] at hmem
    exact mem_map.mp hmem
  constructor
  · intro e he
    obtain ⟨e', he', hn⟩ := hnames e he
    rw [CacheEntry.NoEq, ← hn]
    exact h.noEq e' he'
  · rw [map_name_cacheReplace]
    exact h.distinct
  · rw [length_cacheReplace]
    exact h.slots

theorem CacheOk.append (h : CacheOk cache) {e : CacheEntry}
    (heq : e.NoEq) (hnew : e.name ∉ cache.map (·.name))
    (hroom : cache.length ≠ maxCacheEntry) : CacheOk (cache ++ [e]) := by
  have hslots := h.slots
  constructor
  · intro e' he'
    rcases mem_append.mp he' with he' | he'
    · exact h.noEq e' he'
    · rw [mem_singleton.mp he']
      exact heq
  · rw [map_append, nodup_append]
    refine ⟨h.distinct, by simp, ?_⟩
    intro n hn m hm hnm
    simp only [map_cons, map_nil, mem_singleton] at hm
    exact hnew (by rwa [← hm, ← hnm])
  · simp only [length_append, length_cons, length_nil]
    omega

theorem nvramSet_cases (b : KBlock) (flash : Flash) (alloc : Kstrdup) (name value : CStr) :
    (nvramSet b flash alloc name value).2.valid = true ∧
      ((nvramSet b flash alloc name value).2.cache = (b.checkValid flash).cache ∨
        (nvramSet b flash alloc name value).2.cache =
          cacheReplace (b.checkValid flash).cache name (alloc.dupValue value) ∨
        (name ∉ (b.checkValid flash).cache.map (·.name) ∧
          (b.checkValid flash).cache.length ≠ maxCacheEntry ∧
          (nvramSet b flash alloc name value).2.cache =
            (b.checkValid flash).cache ++ [⟨name, alloc.dupValue value⟩])) := by
  -- the name is known; or the cache is full; or a slot is appended
  cases hidx : cacheIdx (b.checkValid flash).cache name with
  | some i => simp [nvramSet, hidx]
  | none =>
    have hnew := cacheIdx_eq_none_iff.mp hidx
    by_cases hroom : (b.checkValid flash).cache.length = maxCacheEntry
    · simp [nvramSet, hidx, hroom]
    · cases halloc : alloc.name with
      | false => simp [nvramSet, hidx, hroom, halloc]
      | true =>
        refine ⟨by simp [nvramSet, hidx, hroom], .inr (.inr ⟨hnew, hroom, ?_⟩)⟩
        simp [nvramSet, hidx, hroom, halloc]

theorem parseEnv_ones (j len : Nat) :
    parseEnv (j + 1) (replicate len (0xFF : UInt8)) = ⟨[], true⟩ := by
  have hs : strchr 0x3d (replicate len (0xFF : UInt8)) = .overrun := by
    apply strchr_overrun
    · simp [mem_replicate]
    · simp [mem_replicate]
  simp [parseEnv, hs]

section

variable (b : KBlock) (flash : Flash)

theorem nvramClear_checkValid (hfresh : b.valid = false → b.cache = []) :
    (((nvramClear b).block).checkValid ((nvramClear b).flash flash)).cache = [] := by
  cases hv : b.valid with
  | true => simp [nvramClear, raNvramClose, hv, KBlock.checkValid]
  | false =>
    have hones : (replicate b.geo.dataLen (0xFF : UInt8)).length = b.geo.dataLen := by simp
    have hload := loadEnv_commitWrites b.geo flash hones
    rw [show maxCacheEntry = 499 + 1 from rfl, parseEnv_ones] at hload
    simp [nvramClear, raNvramClose, hv, KBlock.checkValid, initNvramBlock, FlashOut.flash,
      hload, hfresh hv]

theorem commitBlock_cases :
    ((b.checkValid flash).dirty = false ∧
      commitBlock b flash = ⟨0, b.checkValid flash, [], []⟩) ∨
    ((b.checkValid flash).dirty = true ∧
      (constructEnv b.geo (b.checkValid flash).cache).full = true ∧
      commitBlock b flash = ⟨-1, b.checkValid flash, [],
        (constructEnv b.geo (b.checkValid flash).cache).spill b.geo⟩) ∨
    ((b.checkValid flash).dirty = true ∧
      (constructEnv b.geo (b.checkValid flash).cache).full = false ∧
      commitBlock b flash = ⟨0, { b.checkValid flash with dirty := false },
        commitWrites b.geo ((constructEnv b.geo (b.checkValid flash).cache).data b.geo),
        (constructEnv b.geo (b.checkValid flash).cache).spill b.geo⟩) := by
  unfold commitBlock
  -- the block is clean; or the image is refused; or it is written
  cases hd : (b.checkValid flash).dirty with
  | false => simp [hd]
  | true =>
    cases hfull : (constructEnv b.geo (b.checkValid flash).cache).full with
    | true => simp [hd, hfull]
    | false => simp [hd, hfull]

theorem nvramCommit_block_valid : (nvramCommit b flash).block.valid = true := by
  have hv := checkValid_valid b flash
  unfold nvramCommit
  rcases commitBlock_cases b flash with ⟨-, h⟩ | ⟨-, -, h⟩ | ⟨-, -, h⟩
  all_goals
    rw [h]
    exact hv

theorem nvramCommit_block_cache :
    (nvramCommit b flash).block.cache = (b.checkValid flash).cache := by
  unfold nvramCommit
  rcases commitBlock_cases b flash with ⟨-, h⟩ | ⟨-, -, h⟩ | ⟨-, -, h⟩
  all_goals rw [h]

end

/-- **Step**: every operation with a proper name keeps the cache well formed. -/
theorem KState.step_ok (s : KState) (op : KOp) (hs : s.Ok) (hop : op.NameOk) : (s.step op).Ok := by
  cases op with
  | set alloc name value =>
    -- the three outcomes of a set each keep the names distinct
    obtain ⟨hv, h | h | ⟨hnew, hroom, h⟩⟩ := nvramSet_cases s.block s.flash alloc name value
    all_goals
      apply KState.ok_of_valid hv
      show CacheOk (nvramSet s.block s.flash alloc name value).2.cache
      rw [h]
    · exact hs.cacheOk
    · exact hs.cacheOk.replace name _
    · exact hs.cacheOk.append hop hnew hroom
  | clear =>
    constructor
    · show CacheOk ((nvramClear s.block).block.checkValid ((nvramClear s.block).flash s.flash)).cache
      -- an erased block is loaded as the empty cache
      rw [nvramClear_checkValid s.block s.flash hs.fresh]
      exact CacheOk.nil
    · intro hv
      cases hb : s.block.valid with
      | true => simp [KState.step, nvramClear, raNvramClose, hb] at hv
      | false => simpa [KState.step, nvramClear, raNvramClose, hb] using hs.fresh hb
  | commit =>
    apply KState.ok_of_valid (nvramCommit_block_valid s.block s.flash)
    show CacheOk (nvramCommit s.block s.flash).block.cache
    rw [nvramCommit_block_cache]
    exact hs.cacheOk

/-- **Run**: the cache stays well formed under any operations. -/
theorem KState.run_ok {s : KState} (hs : s.Ok) {ops : List KOp} (hops : ∀ op ∈ ops, op.NameOk) :
    (runEvents KState.step s ops).Ok := by
  induction ops generalizing s with
  | nil => exact hs
  | cons op ops ih =>
    have hstep := KState.step_ok s op hs (hops op (mem_cons_self ..))
    exact ih hstep fun op' h => hops op' (mem_cons_of_mem _ h)

theorem nvramCommit_writes_cases {b : KBlock} (h : (nvramCommit b flash).writes ≠ []) :
    (nvramCommit b flash).ret = 0 ∧
      (constructEnv b.geo (b.checkValid flash).cache).full = false ∧
      (nvramCommit b flash).writes =
        commitWrites b.geo ((constructEnv b.geo (b.checkValid flash).cache).data b.geo) := by
  unfold nvramCommit at h ⊢
  rcases commitBlock_cases b flash with ⟨-, hc⟩ | ⟨-, -, hc⟩ | ⟨-, hfull, hc⟩
  · rw [hc] at h
    exact absurd rfl h
  · rw [hc] at h
    exact absurd rfl h
  · rw [hc]
    exact ⟨rfl, hfull, rfl⟩

/-- **Commit and reload**: in every state the driver reaches by setting, clearing
    and committing, a commit that writes the flash returns 0, and `init_nvram_block`
    reads the committed cache back if and only if that cache is `Storable` in the
    data area of the block. -/
theorem nvramCommit_roundTrip_iff {s₀ : KState} (h0 : s₀.Ok) {ops : List KOp}
    (hops : ∀ op ∈ ops, op.NameOk) {s : KState} (hs : s = runEvents KState.step s₀ ops)
    (hwrote : (nvramCommit s.block s.flash).writes ≠ []) : (nvramCommit s.block s.flash).ret = 0 ∧
      (RoundTrip s.block.geo ((nvramCommit s.block s.flash).flash s.flash)
          (nvramCommit s.block s.flash).block.cache ↔
        Storable s.block.geo.dataLen (s.block.checkValid s.flash).cache) := by
  have hok : s.Ok := hs ▸ KState.run_ok h0 hops
  obtain ⟨hret, hfull, hw⟩ := nvramCommit_writes_cases hwrote
  refine ⟨hret, ?_⟩
  rw [nvramCommit_block_cache, FlashOut.flash, hw]
  exact roundTrip_construct_iff s.flash hok.cacheOk hfull

/-! ### A small and a large value -/

/-- A block after its initialisation on an erased flash. -/
def KState.erased (g : FlashBlock) : KState := ⟨⟨g, [], true, false⟩, fun _ => 0xFF⟩

/-- The C string of `n` times the letter `a`. -/
def letters (n : Nat) : CStr :=
  ⟨replicate n 0x61, fun h => absurd (eq_of_mem_replicate h) (by decide)⟩

@[simp] theorem strlen_letters (n : Nat) : (letters n).strlen = n := by
  simp [CStr.strlen, letters]

theorem KState.erased_ok (g : FlashBlock) : (KState.erased g).Ok :=
  KState.ok_of_valid rfl CacheOk.nil

theorem erased_set_block (g : FlashBlock) (name value : CStr) :
    ((KState.erased g).step (.set Kstrdup.ok name value)).block =
      ⟨g, [⟨name, some value⟩], true, true⟩ := by
  simp [KState.step, KState.erased, nvramSet, KBlock.checkValid, cacheIdx, maxCacheEntry,
    Kstrdup.ok, Kstrdup.dupValue]

theorem nvramCommit_single (g : FlashBlock) (name value : CStr) (flash : Flash) :
    nvramCommit ⟨g, [⟨name, some value⟩], true, true⟩ flash =
      ⟨0, ⟨g, [⟨name, some value⟩], true, false⟩,
        commitWrites g ((constructEnv g [⟨name, some value⟩]).data g),
        (constructEnv g [⟨name, some value⟩]).spill g⟩ := by
  have hnot : ¬ (constructEnv g [⟨name, some value⟩]).full = true := by
    rw [constructEnv_full_iff]
    simp [envPrefix]
  simp [nvramCommit, commitBlock, KBlock.checkValid, hnot]

/-- `a=1` in the `rtdev` block is read back. -/
theorem nvramCommit_roundTrip_short : RoundTrip rtdevBlock
      ((nvramCommit ((KState.erased rtdevBlock).step
          (.set Kstrdup.ok (letters 1) (letters 2))).block (fun _ => 0xFF)).flash (fun _ => 0xFF))
      [⟨letters 1, some (letters 2)⟩] := by
  have hblock := erased_set_block rtdevBlock (letters 1) (letters 2)
  have hops : ∀ op ∈ [KOp.set Kstrdup.ok (letters 1) (letters 2)], op.NameOk := by
    simp [KOp.NameOk, letters]
  have h := nvramCommit_roundTrip_iff (KState.erased_ok rtdevBlock) hops rfl
    (by
      rw [runEvents_cons, runEvents_nil, hblock, nvramCommit_single]
      simp [commitWrites])
  simp only [runEvents_cons, runEvents_nil, hblock] at h ⊢
  simp only [nvramCommit_single] at h ⊢
  -- the image of the one slot is far shorter than the block
  refine h.2.mpr ⟨[⟨letters 1, some (letters 2)⟩], Or.inl ⟨?_, ?_⟩, ?_⟩
  · simp [KBlock.checkValid, envPrefix, CacheEntry.text, rtdevBlock, FlashBlock.dataLen,
      envBlkSize, sizeofCrc]
  · simp [KBlock.checkValid, envPrefix]
  · simp [KBlock.checkValid]

/-- A single value larger than the block is committed with return value 0 and is
    not read back. -/
theorem nvramCommit_roundTrip_fails : (nvramCommit ((KState.erased rtdevBlock).step
        (.set Kstrdup.ok (letters 1) (letters 9000))).block (fun _ => 0xFF)).ret = 0 ∧
      ¬ RoundTrip rtdevBlock ((nvramCommit ((KState.erased rtdevBlock).step
            (.set Kstrdup.ok (letters 1) (letters 9000))).block
          (fun _ => 0xFF)).flash (fun _ => 0xFF)) [⟨letters 1, some (letters 9000)⟩] := by
  rw [erased_set_block, nvramCommit_single]
  refine ⟨rfl, ?_⟩
  have hok : CacheOk [⟨letters 1, some (letters 9000)⟩] :=
    CacheOk.nil.append (by simp [CacheEntry.NoEq, letters]) (by simp) (by simp [maxCacheEntry])
  -- the check runs before the slot is written, so nothing is refused
  have hnot : (constructEnv rtdevBlock [⟨letters 1, some (letters 9000)⟩]).full = false := by
    rw [← Bool.not_eq_true, constructEnv_full_iff]
    simp [envPrefix]
  rw [FlashOut.flash, roundTrip_construct_iff _ hok hnot]
  have hlen : rtdevBlock.dataLen = 8188 := rfl
  rintro ⟨c, ⟨hfit, -⟩ | ⟨-, hc, h1, h2⟩, -⟩
  · simp [envPrefix, CacheEntry.text, hlen] at hfit
  · -- no prefix of a single slot of 9003 bytes ends near offset 8188
    simp only [hlen] at h1 h2
    cases c with
    | nil => simp at h1
    | cons e c =>
      have he : e = ⟨letters 1, some (letters 9000)⟩ := by
        simpa [envPrefix] using (List.cons_prefix_cons.mp hc).1
      subst he
      simp [CacheEntry.text] at h2
      omega

/-! ## The capacity check -/

/-- The slots with a nonempty value and the final NUL fit into `len` bytes. -/
def Fits (len : Nat) (cache : List CacheEntry) : Prop :=
  imageLen (cache.filter (·.live)) + 1 ≤ len

/-- What the capacity check is there for: no store behind the data buffer, and
    refusal with an untouched flash exactly of what does not fit. -/
structure CapacityOk (write : Flash → Nat → List UInt8 → Flash) (flash : Flash)
    (o : FlashOut) (len : Nat) (cache : List CacheEntry) : Prop where
  inside : o.spill = []
  refused_iff : (o.ret = -1 ∧ applyWrites write flash o.writes = flash) ↔ ¬ Fits len cache
  accepted : Fits len cache → o.ret = 0

theorem commitBlock_capacityOk_iff (write : Flash → Nat → List UInt8 → Flash) (b : KBlock)
    (flash : Flash) :
    CapacityOk write flash (commitBlock b flash) b.geo.dataLen (b.checkValid flash).cache ↔
      Fits b.geo.dataLen (b.checkValid flash).cache ∧
        ((b.checkValid flash).dirty = true →
          imageLen (envPrefix (b.checkValid flash).cache) + 1 ≤ b.geo.dataLen) := by
  have hspill := constructEnv_spill_iff b.geo (b.checkValid flash).cache
  -- nothing to do, refused, or written
  rcases commitBlock_cases b flash with ⟨hd, h⟩ | ⟨hd, hfull, h⟩ | ⟨hd, -, h⟩
  · rw [h]
    constructor
    · intro hc
      have hfits : Fits b.geo.dataLen (b.checkValid flash).cache := by
        by_contra hn
        have := (hc.refused_iff.mpr hn).1
        simp at this
      exact ⟨hfits, fun h => by simp [hd] at h⟩
    · rintro ⟨hfits, -⟩
      exact ⟨rfl, by simp [hfits], fun _ => rfl⟩
  · -- a refused commit has stored behind the buffer before it was refused
    rw [h]
    have hlast := imageLen_dropLast_le (envPrefix (b.checkValid flash).cache)
    have hbig := ((constructEnv_full_iff _ _).mp hfull).2
    constructor
    · intro hc
      have := hspill.mp hc.inside
      omega
    · rintro ⟨-, hroom⟩
      have := hroom hd
      omega
  · rw [h]
    constructor
    · intro hc
      have hfits : Fits b.geo.dataLen (b.checkValid flash).cache := by
        by_contra hn
        have := (hc.refused_iff.mpr hn).1
        simp at this
      exact ⟨hfits, fun _ => hspill.mp hc.inside⟩
    · rintro ⟨hfits, hroom⟩
      exact ⟨hspill.mpr (hroom hd), by simp [hfits], fun _ => rfl⟩

/-- **Capacity**: a commit, of the driver or of the library on any `flash_write`,
    stays in the data buffer and refuses exactly what does not fit, if and only if
    the slots of nonempty value fit and, in a dirty block, so do all slots the loop
    reaches. -/
theorem nvramCommit_capacityOk_iff (b : KBlock) (flash : Flash)
    (flashWrite : Flash → Nat → List UInt8 → Flash) :
    (CapacityOk raMtdWriteNm flash (nvramCommit b flash) b.geo.dataLen (b.checkValid flash).cache ↔
      Fits b.geo.dataLen (b.checkValid flash).cache ∧
        ((b.checkValid flash).dirty = true →
          imageLen (envPrefix (b.checkValid flash).cache) + 1 ≤ b.geo.dataLen)) ∧
    (CapacityOk flashWrite flash (libNvramCommitDirect b flash) b.geo.dataLen
        (b.checkValid flash).cache ↔
      Fits b.geo.dataLen (b.checkValid flash).cache ∧
        ((b.checkValid flash).dirty = true →
          imageLen (envPrefix (b.checkValid flash).cache) + 1 ≤ b.geo.dataLen)) :=
  ⟨commitBlock_capacityOk_iff raMtdWriteNm b flash, commitBlock_capacityOk_iff flashWrite b flash⟩

/-- A value larger than the block is not refused, and is stored behind the buffer. -/
theorem nvramCommit_capacity_fails :
    (nvramCommit ⟨rtdevBlock, [⟨letters 1, some (letters 9000)⟩], true, true⟩
        (fun _ => 0xFF)).spill ≠ [] ∧
      ¬ CapacityOk raMtdWriteNm (fun _ => 0xFF)
        (nvramCommit ⟨rtdevBlock, [⟨letters 1, some (letters 9000)⟩], true, true⟩ (fun _ => 0xFF))
        rtdevBlock.dataLen [⟨letters 1, some (letters 9000)⟩] := by
  have hlen : rtdevBlock.dataLen = 8188 := rfl
  have hspill : (constructEnv rtdevBlock [⟨letters 1, some (letters 9000)⟩]).spill rtdevBlock
      ≠ [] := by
    rw [Ne, constructEnv_spill_iff]
    simp [envPrefix, CacheEntry.text, hlen]
  have hout : (nvramCommit ⟨rtdevBlock, [⟨letters 1, some (letters 9000)⟩], true, true⟩
      (fun _ => 0xFF)).spill ≠ [] := by
    simp only [nvramCommit_single]
    exact hspill
  exact ⟨hout, fun h => hout h.inside⟩

end RalinkSdk.Nvram
