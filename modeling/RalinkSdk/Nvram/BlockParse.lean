import RalinkSdk.Nvram.Coherence

/-!
# Parsing a block that the program has written

A block whose CRC matches comes from `nvram_commit` or from `nvram_clear`.  The loop that parses it
relies on the `'='` and the NUL of every entry.  `nvram_clear` writes neither, and in a commit that
does not fit the last entry is cut off anywhere: then the search leaves the buffer.
-/

namespace RalinkSdk.Nvram

open Lib List Nat

/-! ## Writers and readers -/

/-- The functions that write a block with its CRC; a commit has at most `MAX_CACHE_ENTRY` slots. -/
inductive Writer where
  | commit (cache : List CacheEntry) (slots : cache.length ≤ maxCacheEntry)
  | clear

def Writer.writes (w : Writer) (g : FlashBlock) (flash : Flash) : List (Nat × List UInt8) :=
  match w with
  | .commit cache _ => (nvramCommit ⟨g, cache, true, true⟩ flash).writes
  | .clear => (nvramClear ⟨g, [], true, false⟩).writes

/-- What `nvram_init` makes of the buffer that the driver fills, built with
    `CONFIG_KERNEL_NVRAM`. -/
def libNvramParse (env : LibEnv) (k : Kernel) (index : Int) : EnvParse :=
  parseEnv maxCacheEntry ((ralinkNvramIoctl k env.alloc (.getall index)).data.getD env.junk)

def EnvParse.Inside (r : EnvParse) : Prop := r.overrun = false ∧ r.entries.length ≤ maxCacheEntry

/-- The block is read without leaving a buffer or the cache: by the driver, by the library on the
    flash itself, and by the library through the driver. -/
structure ParsedInside (g : FlashBlock) (flash : Flash) : Prop where
  kernel : (initNvramBlock (KBlock.boot g) flash).overrun = false ∧
    (initNvramBlock (KBlock.boot g) flash).block.cache.length ≤ maxCacheEntry
  direct : (libNvramInitDirect (KBlock.boot g) flash).2 = false ∧
    (libNvramInitDirect (KBlock.boot g) flash).1.cache.length ≤ maxCacheEntry
  ioctl : ∀ (env : LibEnv) (k : Kernel) (index : Int), k.indexOk index = true →
    k.fb index.toNat = KBlock.boot g → k.flash = flash → (libNvramParse env k index).Inside

/-- The block ends behind an entry: all entries that the commit reaches fit, or the ones that fit
    end at one of the last two offsets of the block. -/
def Writer.EndsWhole (g : FlashBlock) : Writer → Prop
  | .commit cache _ => ∃ c, c <+: envPrefix cache ∧ imageLen c ≤ g.dataLen ∧
      (c = envPrefix cache ∨ g.dataLen ≤ imageLen c + 1)
  | .clear => False

/-! ## The parser -/

theorem parseEnv_entries_le (j : Nat) (s : List UInt8) : (parseEnv j s).entries.length ≤ j := by
  induction j generalizing s with
  | zero => exact Nat.le_refl 0
  | succ j ih =>
    unfold parseEnv
    split
    · exact Nat.zero_le _
    · exact Nat.zero_le _
    · next name s₁ _ =>
      split
      · exact Nat.zero_le _
      · exact Nat.zero_le _
      · next value s₂ _ =>
        have hrest := ih s₂
        dsimp only
        split
        · exact succ_le_succ (Nat.zero_le _)
        · split
          · exact succ_le_succ (Nat.zero_le _)
          · exact succ_le_succ hrest

theorem imageLen_map_split (es : List CacheEntry) : imageLen (es.map (·.split)) = imageLen es := by
  rw [← length_imageOf, imageOf_map_split, length_imageOf]

theorem exists_loadsAs_iff (len : Nat) (es : List CacheEntry) :
    (∃ c, LoadsAs len (es.map (·.split)) c) ↔
      ∃ c, c <+: es ∧ imageLen c ≤ len ∧ (c = es ∨ len ≤ imageLen c + 1) := by
  constructor
  · rintro ⟨c, ⟨hfit, -⟩ | ⟨-, hc, h1, h2⟩⟩
    · rw [imageLen_map_split] at hfit
      exact ⟨es, prefix_refl es, hfit, .inl rfl⟩
    · -- the entries that come back are the first ones, split anew
      have hc' : c = (es.take c.length).map (·.split) := by
        rw [map_take]
        exact prefix_iff_eq_take.mp hc
      have hlen : imageLen (es.take c.length) = imageLen c := by
        rw [← imageLen_map_split, ← hc']
      exact ⟨es.take c.length, take_prefix _ _, by omega, .inr (by omega)⟩
  · rintro ⟨c, hc, hfit, hend⟩
    by_cases hall : imageLen es ≤ len
    · exact ⟨_, .inl ⟨by rw [imageLen_map_split]; exact hall, rfl⟩⟩
    · have hlast : len ≤ imageLen c + 1 := by
        apply hend.resolve_left
        rintro rfl
        exact hall hfit
      refine ⟨c.map (·.split), .inr ⟨?_, hc.map _, ?_, ?_⟩⟩
      · rw [imageLen_map_split]
        omega
      · rw [imageLen_map_split]
        exact hlast
      · rw [imageLen_map_split]
        exact hfit

theorem LoadsAs.transferable {len : Nat} {es c : List CacheEntry}
    (h : LoadsAs len (es.map (·.split)) c) : Transferable len c := by
  refine ⟨?_, fun e he => ?_⟩
  · rcases h with ⟨hfit, rfl⟩ | ⟨-, -, -, hfit⟩
    · exact hfit
    · exact hfit
  · have hmem : e ∈ es.map (·.split) := by
      rcases h with ⟨-, rfl⟩ | ⟨-, hc, -⟩
      · exact he
      · exact hc.subset he
    obtain ⟨d, -, rfl⟩ := List.mem_map.mp hmem
    exact ⟨rfl, d.split_noEq⟩

/-! ## Reading a block -/

theorem libNvramParse_eq {g : FlashBlock} {flash : Flash} {c : List CacheEntry}
    (hload : loadEnv g flash = some ⟨c, false⟩) (hfull : (constructEnv g c).full = false)
    (env : LibEnv) {k : Kernel} {index : Int} (hindex : k.indexOk index = true)
    (hblock : k.fb index.toNat = KBlock.boot g) (hflash : k.flash = flash) :
    libNvramParse env k index = parseEnv maxCacheEntry ((constructEnv g c).data g) := by
  have hvalid : (KBlock.boot g).checkValid flash = ⟨g, c, true, false⟩ := by
    rw [KBlock.checkValid, initNvramBlock_boot hload]
    rfl
  have hall : Nvram.nvramGetall (KBlock.boot g) flash =
      (0, constructEnv g c, ⟨g, c, true, false⟩) := by
    simp [Nvram.nvramGetall, hvalid, hfull]
  have hgeo : (KBlock.boot g).geo = g := rfl
  simp [libNvramParse, ralinkNvramIoctl, Kernel.nvramGetall, hindex, hblock, hflash, hall, hgeo]

theorem parsedInside_of_loadsAs {g : FlashBlock} {flash : Flash} {es c : List CacheEntry}
    (hload : loadEnv g flash = some ⟨c, false⟩) (hslots : c.length ≤ maxCacheEntry)
    (hloads : LoadsAs g.dataLen (es.map (·.split)) c) : ParsedInside g flash := by
  have hfull := hloads.transferable.not_full
  have hparse := hloads.transferable.parseEnv hslots
  constructor
  · rw [initNvramBlock_boot hload]
    exact ⟨rfl, hslots⟩
  · rw [libNvramInitDirect, initNvramBlock_boot hload]
    exact ⟨rfl, hslots⟩
  · intro env k index hindex hblock hflash
    rw [libNvramParse_eq hload hfull env hindex hblock hflash, hparse]
    exact ⟨rfl, hslots⟩

theorem ParsedInside.parse {g : FlashBlock} {flash : Flash} {data : List UInt8}
    (h : ParsedInside g flash) (hflash : BlockHolds g flash data) :
    ∃ c, parseEnv maxCacheEntry data = ⟨c, false⟩ := by
  obtain ⟨c, overrun, hparse⟩ : ∃ c o, parseEnv maxCacheEntry data = ⟨c, o⟩ := ⟨_, _, rfl⟩
  have hload := hflash.loadEnv
  rw [hparse] at hload
  have hinside := h.kernel.1
  rw [initNvramBlock_boot hload] at hinside
  exact ⟨c, by rw [hparse, ← hinside]⟩

theorem commitWrites_inj {g : FlashBlock} {d d' : List UInt8}
    (h : commitWrites g d = commitWrites g d') : d = d' := by
  simp only [commitWrites, List.cons.injEq, Prod.mk.injEq, true_and, and_true] at h
  exact h.2

theorem data_of_commit {g : FlashBlock} {cache : List CacheEntry} {before : Flash}
    {data : List UInt8}
    (h : (nvramCommit ⟨g, cache, true, true⟩ before).writes = commitWrites g data) :
    data = envData g.dataLen (envPrefix cache) := by
  have hvalid : KBlock.checkValid ⟨g, cache, true, true⟩ before = ⟨g, cache, true, true⟩ := rfl
  rcases commitBlock_cases ⟨g, cache, true, true⟩ before with ⟨hd, -⟩ | ⟨-, -, hout⟩ | ⟨-, hfull, hout⟩
  · rw [hvalid] at hd
    cases hd
  · -- a commit that is refused writes nothing
    rw [nvramCommit, hout] at h
    cases h
  · rw [nvramCommit, hout] at h
    rw [hvalid] at hfull h
    rw [← commitWrites_inj h, constructEnv_data hfull]

/-- **Parsing stays inside the block.**  A block that `nvram_commit` or `nvram_clear` has written is
    read inside the buffers, and into the slots of the cache, if and only if it ends behind an
    entry. -/
theorem block_parsing_inside_iff (g : FlashBlock) (w : Writer) {before flash : Flash}
    {data : List UInt8} (hw : w.writes g before = commitWrites g data)
    (hflash : BlockHolds g flash data) : ParsedInside g flash ↔ w.EndsWhole g := by
  cases w with
  | clear =>
    have hdata : data = List.replicate g.dataLen 0xFF := (commitWrites_inj hw).symm
    refine iff_of_false (fun h => ?_) (fun h => h)
    obtain ⟨c, hparse⟩ := h.parse hflash
    rw [hdata, show maxCacheEntry = 499 + 1 from rfl, parseEnv_ones] at hparse
    cases hparse
  | commit cache slots =>
    have hreach := (envPrefix_sublist cache).length_le.trans slots
    have hdata := data_of_commit hw
    have hiff := fun c => parseEnv_envData_split_iff (c := c) hreach g.two_le_dataLen
    rw [Writer.EndsWhole, ← exists_loadsAs_iff]
    constructor
    · intro h
      obtain ⟨c, hparse⟩ := h.parse hflash
      rw [hdata] at hparse
      exact ⟨c, (hiff c).mp hparse⟩
    · rintro ⟨c, hloads⟩
      have hparse := (hiff c).mpr hloads
      have hslots := parseEnv_entries_le maxCacheEntry (envData g.dataLen (envPrefix cache))
      rw [hparse] at hslots
      rw [← hdata] at hparse
      have hload := hflash.loadEnv
      rw [hparse] at hload
      exact parsedInside_of_loadsAs hload hslots hloads

/-- A block with one short entry is parsed inside. -/
theorem block_parsing_inside_short : ParsedInside rtdevBlock
      (applyWrites raMtdWriteNm (fun _ => 0xFF)
        (commitWrites rtdevBlock (envData rtdevBlock.dataLen [⟨letters 1, some (letters 2)⟩]))) := by
  have hreach : envPrefix [⟨letters 1, some (letters 2)⟩] = [⟨letters 1, some (letters 2)⟩] := rfl
  have hfull : (constructEnv rtdevBlock [⟨letters 1, some (letters 2)⟩]).full = false := by
    rw [← Bool.not_eq_true, constructEnv_full_iff, hreach]
    simp
  have hwrites : (Writer.commit [⟨letters 1, some (letters 2)⟩] (by decide)).writes rtdevBlock
      (fun _ => 0xFF) = commitWrites rtdevBlock
        (envData rtdevBlock.dataLen [⟨letters 1, some (letters 2)⟩]) := by
    rw [Writer.writes, nvramCommit_single, constructEnv_data hfull, hreach]
  have hholds := blockHolds_commitWrites rtdevBlock (fun _ => 0xFF)
    (length_envData rtdevBlock.dataLen [⟨letters 1, some (letters 2)⟩])
  refine (block_parsing_inside_iff rtdevBlock _ hwrites hholds).mpr ?_
  refine ⟨_, List.prefix_refl _, ?_, .inl rfl⟩
  rw [hreach]
  simp [CacheEntry.text, rtdevBlock, FlashBlock.dataLen, envBlkSize, sizeofCrc]

/-- A block of all ones, as `nvram_clear` writes it, is read behind its end. -/
theorem cleared_block_overruns :
    ¬ ∀ (g : FlashBlock) (w : Writer) (before flash : Flash) (data : List UInt8),
      w.writes g before = commitWrites g data → BlockHolds g flash data →
        ParsedInside g flash := by
  intro h
  have hholds := blockHolds_commitWrites rtdevBlock (fun _ => 0xFF)
    (List.length_replicate (n := rtdevBlock.dataLen) (a := (0xFF : UInt8)))
  have hinside := (h rtdevBlock .clear (fun _ => 0xFF) _ _ rfl hholds).kernel.1
  have hload := hholds.loadEnv
  rw [show maxCacheEntry = 499 + 1 from rfl, parseEnv_ones] at hload
  rw [initNvramBlock_boot hload] at hinside
  cases hinside

end RalinkSdk.Nvram
