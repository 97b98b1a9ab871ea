import RalinkSdk.Nvram.Commit

/-!
# Power cuts during a commit

A commit writes the CRC word and then the data area, each with a read-erase-write
cycle over the sector that all blocks share.  The power may go after any number of
these writes.
-/

namespace RalinkSdk.Nvram

open Lib List Nat

/-! ## Cut commits -/

/-- A block whose cache waits to be committed. -/
def KBlock.pending (g : FlashBlock) (cache : List CacheEntry) : KBlock := ⟨g, cache, true, true⟩

/-- The flash when the power goes after `k` of the writes that commit `cache`. -/
def cutCommit (g : FlashBlock) (cache : List CacheEntry) (flash : Flash) (k : Nat) : Flash :=
  applyWrites raMtdWriteNm flash ((nvramCommit (.pending g cache) flash).writes.take k)

/-- The capacity check stops the commit of `cache`. -/
def Refused (g : FlashBlock) (cache : List CacheEntry) : Prop :=
  envPrefix cache ≠ [] ∧ g.dataLen + 2 ≤ imageLen (envPrefix cache).dropLast

variable {g : FlashBlock} {cache : List CacheEntry}

theorem nvramCommit_pending_refused (h : Refused g cache) (flash : Flash) :
    (nvramCommit (.pending g cache) flash).ret = -1 ∧
      (nvramCommit (KBlock.pending g cache) flash).writes = [] := by
  have hfull := (constructEnv_full_iff g cache).mpr h
  simp [nvramCommit, commitBlock, KBlock.pending, KBlock.checkValid, hfull]

theorem not_full_of_not_refused (h : ¬ Refused g cache) : (constructEnv g cache).full = false := by
  rw [← Bool.not_eq_true, constructEnv_full_iff]
  exact h

theorem nvramCommit_pending_writes (h : ¬ Refused g cache) (flash : Flash) :
    (nvramCommit (.pending g cache) flash).writes =
      commitWrites g ((constructEnv g cache).data g) := by
  have hfull := not_full_of_not_refused h
  simp [nvramCommit, commitBlock, KBlock.pending, KBlock.checkValid, hfull]

theorem nvramCommit_pending_ret (h : ¬ Refused g cache) (flash : Flash) :
    (nvramCommit (KBlock.pending g cache) flash).ret = 0 := by
  have hfull := not_full_of_not_refused h
  simp [nvramCommit, commitBlock, KBlock.pending, KBlock.checkValid, hfull]

theorem not_refused_of_ret {flash : Flash}
    (h : (nvramCommit (.pending g cache) flash).ret = 0) : ¬ Refused g cache := by
  intro hr
  rw [(nvramCommit_pending_refused hr flash).1] at h
  simp at h

/-! ## Other blocks -/

theorem raMtdWriteNm_outside (flash : Flash) {start a : Nat} {buf : List UInt8}
    (hsec : start + buf.length ≤ mtdErasesize) (ha : a < start ∨ start + buf.length ≤ a) :
    raMtdWriteNm flash start buf a = flash a := by
  rw [raMtdWriteNm_eq_store _ hsec]
  have : ¬ (start ≤ a ∧ a < start + buf.length) := by omega
  simp [Flash.store, this]

theorem applyWrites_outside {lo hi a : Nat} (hhi : hi ≤ mtdErasesize) (ha : a < lo ∨ hi ≤ a)
    {ws : List (Nat × List UInt8)} (hws : ∀ w ∈ ws, lo ≤ w.1 ∧ w.1 + w.2.length ≤ hi)
    (flash : Flash) : applyWrites raMtdWriteNm flash ws a = flash a := by
  induction ws generalizing flash with
  | nil => rfl
  | cons w ws ih =>
    have hw := hws w (mem_cons_self ..)
    show applyWrites raMtdWriteNm (raMtdWriteNm flash w.1 w.2) ws a = flash a
    rw [ih fun w' h => hws w' (mem_cons_of_mem _ h)]
    exact raMtdWriteNm_outside flash (by omega) (by omega)

theorem commitWrites_inside (g : FlashBlock) {data : List UInt8} (hdata : data.length = g.dataLen) :
    ∀ w ∈ commitWrites g data,
      g.flashOffset ≤ w.1 ∧ w.1 + w.2.length ≤ g.flashOffset + g.flashMaxLen := by
  have hg := g.dataLen_add
  intro w hw
  simp only [commitWrites, mem_cons, not_mem_nil, or_false] at hw
  rcases hw with rfl | rfl
  · simp only [length_crcToBytes]
    omega
  · simp only [hdata]
    omega

theorem fbTable_disjoint {dualImage : Bool} {g g' : FlashBlock} (hg : g ∈ fbTable dualImage)
    (hg' : g' ∈ fbTable dualImage) (hne : g'.name ≠ g.name) :
    g'.flashOffset + g'.flashMaxLen ≤ g.flashOffset ∨
      g.flashOffset + g.flashMaxLen ≤ g'.flashOffset := by
  have hrows : ∀ b ∈ fbTable dualImage,
      b = ubootBlock ∨ b = rt2860Block ∨ b = rtdevBlock ∨ b = certBlock ∨ b = wapiBlock := by
    intro b hb
    cases dualImage <;> simp [fbTable] at hb <;> tauto
  rcases hrows g hg with rfl | rfl | rfl | rfl | rfl <;>
    rcases hrows g' hg' with rfl | rfl | rfl | rfl | rfl <;>
    first
      | exact absurd rfl hne
      | exact .inl (by decide)
      | exact .inr (by decide)

/-- **Other blocks**: no byte of another row of the table changes, wherever the
    commit is cut. -/
theorem cutCommit_others {dualImage : Bool} {g g' : FlashBlock} (hg : g ∈ fbTable dualImage)
    (hg' : g' ∈ fbTable dualImage) (hne : g'.name ≠ g.name) (cache : List CacheEntry)
    (flash : Flash) (k : Nat) {a : Nat} (ha : g'.flashOffset ≤ a)
    (ha' : a < g'.flashOffset + g'.flashMaxLen) : cutCommit g cache flash k a = flash a := by
  have hdisj := fbTable_disjoint hg hg' hne
  by_cases hr : Refused g cache
  · simp [cutCommit, (nvramCommit_pending_refused hr flash).2, applyWrites]
  · have hlen : ((constructEnv g cache).data g).length = g.dataLen := by
      rw [constructEnv_data (not_full_of_not_refused hr), length_envData]
    have hin := commitWrites_inside g hlen
    rw [cutCommit, nvramCommit_pending_writes hr]
    exact applyWrites_outside g.in_sector (by omega)
      (fun w hw => hin w (mem_of_mem_take hw)) flash

/-! ## The next start -/

/-- The cache found by the next start is one of the three, and it was read from
    inside the buffer. -/
def FindsOneOf (g : FlashBlock) (flash : Flash) (old new : List CacheEntry) : Prop :=
  (initNvramBlock (.boot g) flash).overrun = false ∧
    ((initNvramBlock (.boot g) flash).block.cache = old ∨
      (initNvramBlock (.boot g) flash).block.cache = new ∨
      (initNvramBlock (.boot g) flash).block.cache = [])

/-- What a data area holding `cache` is loaded as is one of the three. -/
def ReloadsAmong (g : FlashBlock) (cache old new : List CacheEntry) : Prop :=
  ∃ c, LoadsAs g.dataLen ((envPrefix cache).map (·.split)) c ∧ (c = old ∨ c = new ∨ c = [])

theorem findsOneOf_of_bad_crc {flash : Flash} (h : loadEnv g flash = none)
    (old new : List CacheEntry) : FindsOneOf g flash old new := by
  simp [FindsOneOf, initNvramBlock, KBlock.boot, h]

theorem findsOneOf_iff_of_good_crc {flash : Flash} {r : EnvParse}
    (h : loadEnv g flash = some r) (old new : List CacheEntry) : FindsOneOf g flash old new ↔
      ∃ c, loadEnv g flash = some ⟨c, false⟩ ∧ (c = old ∨ c = new ∨ c = []) := by
  obtain ⟨c, overrun⟩ := r
  rw [FindsOneOf, initNvramBlock_boot h, h]
  constructor
  · rintro ⟨rfl, hc⟩
    exact ⟨c, rfl, hc⟩
  · rintro ⟨c', hc', hc⟩
    simp only [Option.some_inj, EnvParse.mk.injEq] at hc'
    rw [← hc'.1] at hc
    exact ⟨hc'.2, hc⟩

theorem findsOneOf_committed_iff
    (hslots : cache.length ≤ maxCacheEntry) (hr : ¬ Refused g cache) (flash : Flash)
    (old new : List CacheEntry) : FindsOneOf g (applyWrites raMtdWriteNm flash
        (commitWrites g ((constructEnv g cache).data g))) old new ↔
      ReloadsAmong g cache old new := by
  have hfull := not_full_of_not_refused hr
  have hlen : ((constructEnv g cache).data g).length = g.dataLen := by
    rw [constructEnv_data hfull, length_envData]
  have hload := loadEnv_commitWrites g flash hlen
  rw [findsOneOf_iff_of_good_crc hload]
  simp only [loadEnv_construct_iff flash hslots hfull, ReloadsAmong]

theorem take_commitWrites (g : FlashBlock) (data : List UInt8) (k : Nat) :
    (commitWrites g data).take (k + 2) = commitWrites g data := by
  simp [commitWrites]

theorem loadEnv_between (g : FlashBlock) (flash : Flash) {d d' : List UInt8}
    (hd : d.length = g.dataLen) (hcrc : nvCrc32 0 d ≠ nvCrc32 0 d') :
    loadEnv g (applyWrites raMtdWriteNm (applyWrites raMtdWriteNm flash (commitWrites g d))
      ((commitWrites g d').take 1)) = none := by
  have hg := g.dataLen_add
  have hsec := g.in_sector
  have hw := length_crcToBytes (nvCrc32 0 d)
  have hw' := length_crcToBytes (nvCrc32 0 d')
  simp only [applyWrites, commitWrites, take_succ_cons, take_zero, foldl_cons, foldl_nil]
  rw [raMtdWriteNm_eq_store _ (by omega), raMtdWriteNm_eq_store _ (by omega),
    raMtdWriteNm_eq_store _ (by omega)]
  -- the data are still the old ones, under the new checksum
  have hdata : raMtdReadNm
      (((flash.store g.flashOffset (crcToBytes (nvCrc32 0 d))).store (g.flashOffset + sizeofCrc) d).store
        g.flashOffset (crcToBytes (nvCrc32 0 d'))) (g.flashOffset + sizeofCrc) g.dataLen = d := by
    rw [raMtdReadNm_store_disjoint _ (.inr (by omega)), ← hd]
    exact raMtdReadNm_store_same _ _ _
  have hword : raMtdReadNm
      (((flash.store g.flashOffset (crcToBytes (nvCrc32 0 d))).store (g.flashOffset + sizeofCrc) d).store
        g.flashOffset (crcToBytes (nvCrc32 0 d'))) g.flashOffset sizeofCrc =
      crcToBytes (nvCrc32 0 d') := raMtdReadNm_store_same _ _ _
  simp [loadEnv, hdata, hword, hcrc]

/-- What a power cut must not break: the next start finds one of the three caches,
    and the other blocks are as they were. -/
structure CrashOk (dualImage : Bool) (g : FlashBlock) (before after : Flash)
    (old new : List CacheEntry) : Prop where
  finds : FindsOneOf g after old new
  others : ∀ g' ∈ fbTable dualImage, g'.name ≠ g.name →
    ∀ a, g'.flashOffset ≤ a → a < g'.flashOffset + g'.flashMaxLen → after a = before a

/-- **Crash consistency**: over the flash of a successful commit of `old`, the
    commit of `new` is cut after `k` writes.  The next start finds the old, the new or
    an empty cache, and the other blocks are untouched, if and only if what was
    written last as a whole is loaded as one of the three. -/
theorem cutCommit_crashOk_iff {dualImage : Bool} {g : FlashBlock} (hg : g ∈ fbTable dualImage)
    {old new : List CacheEntry} (hold : old.length ≤ maxCacheEntry)
    (hnew : new.length ≤ maxCacheEntry) {flash₀ flash : Flash}
    (hret : (nvramCommit (KBlock.pending g old) flash₀).ret = 0)
    (hflash : flash = (nvramCommit (KBlock.pending g old) flash₀).flash flash₀)
    (hcrc : nvCrc32 0 ((constructEnv g old).data g) ≠ nvCrc32 0 ((constructEnv g new).data g))
    (k : Nat) : CrashOk dualImage g flash (cutCommit g new flash k) old new ↔
      ((k = 0 ∨ Refused g new) → ReloadsAmong g old old new) ∧
        (2 ≤ k → ¬ Refused g new → ReloadsAmong g new old new) := by
  have hr := not_refused_of_ret hret
  have hcrash : CrashOk dualImage g flash (cutCommit g new flash k) old new ↔
      FindsOneOf g (cutCommit g new flash k) old new :=
    ⟨fun h => h.finds, fun h => ⟨h, fun g' hg' hne a ha ha' =>
      cutCommit_others hg hg' hne new flash k ha ha'⟩⟩
  have hold' : flash = applyWrites raMtdWriteNm flash₀
      (commitWrites g ((constructEnv g old).data g)) := by
    rw [hflash, FlashOut.flash, nvramCommit_pending_writes hr]
  have hunchanged : FindsOneOf g flash old new ↔ ReloadsAmong g old old new := by
    rw [hold']
    exact findsOneOf_committed_iff hold hr flash₀ old new
  rw [hcrash]
  by_cases hn : Refused g new
  · have hcut : cutCommit g new flash k = flash := by
      simp [cutCommit, (nvramCommit_pending_refused hn flash).2, applyWrites]
    simp [hcut, hunchanged, hn]
  · rw [cutCommit, nvramCommit_pending_writes hn]
    rcases k with _ | _ | k
    · simp only [List.take_zero, applyWrites, List.foldl_nil, hunchanged]
      simp
    · -- the data area is still the old one, under a CRC that is not its own
      have hlen : ((constructEnv g old).data g).length = g.dataLen := by
        rw [constructEnv_data (not_full_of_not_refused hr), length_envData]
      have hnone := loadEnv_between g flash₀ hlen hcrc
      rw [← hold'] at hnone
      have := findsOneOf_of_bad_crc hnone old new
      simp [this, hn]
    · rw [take_commitWrites, findsOneOf_committed_iff hnew hn]
      simp [hn]

/-! ## Data areas that differ in one byte -/

/-- Linear-time check that no number occurs twice, with the numbers seen so far as
    the set bits of `seen`. -/
def allFresh : List Nat → (seen : Nat) → Bool
  | [], _ => true
  | n :: ns, seen => !seen.testBit n && allFresh ns (seen ||| 2 ^ n)

theorem nodup_of_allFresh {ns : List Nat} {seen : Nat} (h : allFresh ns seen = true) :
    ns.Nodup ∧ ∀ n ∈ ns, seen.testBit n = false := by
  induction ns generalizing seen with
  | nil => simp
  | cons n ns ih =>
    simp only [allFresh, Bool.and_eq_true, Bool.not_eq_true'] at h
    obtain ⟨hnodup, hseen⟩ := ih h.2
    -- a number that is new to the mask with `n` is new to the mask and is not `n`
    have hsplit : ∀ m ∈ ns, seen.testBit m = false ∧ m ≠ n := by
      intro m hm
      have := hseen m hm
      simp only [testBit_or, Bool.or_eq_false_iff] at this
      refine ⟨this.1, ?_⟩
      rintro rfl
      simp at this
    refine ⟨nodup_cons.mpr ⟨fun hmem => (hsplit n hmem).2 rfl, hnodup⟩, ?_⟩
    intro m hm
    rcases mem_cons.mp hm with rfl | hm
    · exact h.1
    · exact (hsplit m hm).1

theorem crcTable_top_injective {i j : Nat} (hi : i < 256) (hj : j < 256)
    (h : crcTable.getD i 0 >>> (24 : UInt32) = crcTable.getD j 0 >>> (24 : UInt32)) : i = j := by
  have hlen : crcTable.length = 256 := by decide +kernel
  have hfresh : allFresh (crcTable.map fun x => x.toNat / 2 ^ 24) 0 = true := by decide +kernel
  have hnodup := (nodup_of_allFresh hfresh).1
  have htop := congrArg UInt32.toNat h
  simp only [UInt32.toNat_shiftRight, shiftRight_eq_div_pow] at htop
  have hi' : i < (crcTable.map fun x => x.toNat / 2 ^ 24).length := by simpa [hlen] using hi
  have hj' : j < (crcTable.map fun x => x.toNat / 2 ^ 24).length := by simpa [hlen] using hj
  have hsame : (crcTable.map fun x => x.toNat / 2 ^ 24)[i] =
      (crcTable.map fun x => x.toNat / 2 ^ 24)[j] := by
    rw [getElem_map, getElem_map]
    simpa [getD_eq_getElem?_getD, hlen, hi, hj] using htop
  exact hnodup.getElem_inj_iff.mp hsame

theorem crcStep_injective (b : UInt8) : Function.Injective fun crc => crcStep crc b := by
  intro c c' h
  simp only [crcStep] at h
  have hidx : ∀ x : UInt32, ((x ^^^ b.toUInt32) &&& 0xff).toNat < 256 := by
    intro x
    rw [UInt32.toNat_and]
    exact Nat.lt_of_le_of_lt and_le_right (by decide)
  -- the top byte of the step is the top byte of the table entry
  have htop : ∀ x y : UInt32, (x ^^^ (y >>> 8)) >>> (24 : UInt32) = x >>> (24 : UInt32) := by
    intro x y
    apply UInt32.toNat_inj.mp
    have hy := y.toNat_lt
    simp only [UInt32.toNat_shiftRight, UInt32.toNat_xor, UInt32.reduceToNat, Nat.reduceMod,
      shiftRight_xor_distrib, ← Nat.shiftRight_add]
    rw [shiftRight_eq_div_pow y.toNat, div_eq_of_lt (by omega), Nat.xor_zero]
  -- so the table index, and with it the low byte, is known from the result
  have hij : ((c ^^^ b.toUInt32) &&& 0xff).toNat = ((c' ^^^ b.toUInt32) &&& 0xff).toNat := by
    apply crcTable_top_injective (hidx c) (hidx c')
    have := congrArg (fun x : UInt32 => x >>> (24 : UInt32)) h
    simpa only [htop] using this
  rw [hij, UInt32.xor_right_inj] at h
  -- the other bytes come through the shift
  have hhigh : c.toNat / 256 = c'.toNat / 256 := by
    have := congrArg UInt32.toNat h
    simpa [shiftRight_eq_div_pow] using this
  have hlow : c.toNat % 256 = c'.toNat % 256 := by
    have h255 : (255 : UInt32).toNat = 2 ^ 8 - 1 := rfl
    simp only [UInt32.toNat_and, UInt32.toNat_xor] at hij
    rw [h255, and_two_pow_sub_one_eq_mod, and_two_pow_sub_one_eq_mod, xor_mod_two_pow,
      xor_mod_two_pow] at hij
    have := congrArg (· ^^^ b.toUInt32.toNat % 2 ^ 8) hij
    simpa [xor_xor_cancel_right] using this
  apply UInt32.toNat_inj.mp
  omega

theorem foldl_crcStep_injective (buf : List UInt8) :
    Function.Injective fun crc => buf.foldl crcStep crc := by
  induction buf with
  | nil => exact fun _ _ h => h
  | cons b buf ih => exact ih.comp (crcStep_injective b)

theorem nvCrc32_cons_ne (t : List UInt8) : nvCrc32 0 (0x61 :: t) ≠ nvCrc32 0 (0x62 :: t) := by
  intro h
  simp only [nvCrc32, foldl_cons, UInt32.xor_left_inj] at h
  have := foldl_crcStep_injective t h
  exact absurd this (by decide)

/-! ### Two one-slot caches -/

def nameA : CStr := ⟨[0x61], by decide⟩

def nameB : CStr := ⟨[0x62], by decide⟩

/-- The one-slot cache `name=aa...a`. -/
def oneSlot (name : CStr) (n : Nat) : List CacheEntry := [⟨name, some (letters n)⟩]

theorem not_refused_oneSlot (g : FlashBlock) (name : CStr) (n : Nat) :
    ¬ Refused g (oneSlot name n) := by
  simp [Refused, oneSlot, envPrefix]

theorem nvCrc32_oneSlot_ne {len : Nat} (hlen : 2 ≤ len) (n : Nat) :
    nvCrc32 0 (envData len (oneSlot nameA n)) ≠ nvCrc32 0 (envData len (oneSlot nameB n)) := by
  obtain ⟨m, rfl⟩ : ∃ m, len = m + 1 := ⟨len - 1, by omega⟩
  exact nvCrc32_cons_ne _

theorem loadsAs_of_fits {len : Nat} (hall : envPrefix cache = cache)
    (hname : ∀ e ∈ cache, e.NoEq) (hfit : imageLen cache ≤ len) :
    LoadsAs len ((envPrefix cache).map (·.split)) cache := by
  have hself : (envPrefix cache).map (·.split) = envPrefix cache :=
    map_split_eq_self fun e he => ⟨isSome_of_mem_envPrefix he, hname e (hall ▸ he)⟩
  rw [hself, hall]
  exact .inl ⟨hfit, rfl⟩

/-- The flash after committing `a=a` to an erased `rtdev` block. -/
def flashWithA : Flash :=
  (nvramCommit (.pending rtdevBlock (oneSlot nameA 1)) (fun _ => 0xFF)).flash (fun _ => 0xFF)

/-- Replacing `a=a` by `b=a` survives a power cut between and after the writes. -/
theorem cutCommit_crashOk_short :
    CrashOk false rtdevBlock flashWithA (cutCommit rtdevBlock (oneSlot nameB 1) flashWithA 1)
        (oneSlot nameA 1) (oneSlot nameB 1) ∧
      CrashOk false rtdevBlock flashWithA (cutCommit rtdevBlock (oneSlot nameB 1) flashWithA 2)
        (oneSlot nameA 1) (oneSlot nameB 1) := by
  have hlen : rtdevBlock.dataLen = 8188 := rfl
  have hA := not_refused_oneSlot rtdevBlock nameA 1
  have hB := not_refused_oneSlot rtdevBlock nameB 1
  have hcrc : nvCrc32 0 ((constructEnv rtdevBlock (oneSlot nameA 1)).data rtdevBlock) ≠
      nvCrc32 0 ((constructEnv rtdevBlock (oneSlot nameB 1)).data rtdevBlock) := by
    rw [constructEnv_data (not_full_of_not_refused hA),
      constructEnv_data (not_full_of_not_refused hB)]
    exact nvCrc32_oneSlot_ne rtdevBlock.two_le_dataLen 1
  -- either cache is loaded as it is
  have hloads : ∀ name : CStr, (0x3d : UInt8) ∉ name.bytes → name.strlen = 1 →
      LoadsAs rtdevBlock.dataLen ((envPrefix (oneSlot name 1)).map (·.split)) (oneSlot name 1) := by
    intro name hname hn
    apply loadsAs_of_fits
    · simp [oneSlot, envPrefix]
    · simpa [oneSlot, CacheEntry.NoEq] using hname
    · simp [oneSlot, CacheEntry.text, hlen, hn]
  have hcut : ∀ k, CrashOk false rtdevBlock flashWithA
      (cutCommit rtdevBlock (oneSlot nameB 1) flashWithA k) (oneSlot nameA 1) (oneSlot nameB 1) := by
    intro k
    refine (cutCommit_crashOk_iff (by simp [fbTable]) (by simp [oneSlot, maxCacheEntry])
      (by simp [oneSlot, maxCacheEntry]) (nvramCommit_pending_ret hA _) rfl hcrc k).mpr
      ⟨fun _ => ?_, fun _ _ => ?_⟩
    · exact ⟨_, hloads nameA (by decide) rfl, Or.inl rfl⟩
    · exact ⟨_, hloads nameB (by decide) rfl, Or.inr (Or.inl rfl)⟩
  exact ⟨hcut 1, hcut 2⟩

@[simp] theorem imageLen_oneSlot (name : CStr) (n : Nat) :
    imageLen (oneSlot name n) = name.strlen + n + 2 := by
  simp [oneSlot, CacheEntry.text]

/-- The cache of a slot that fills the data area and a second one behind it. -/
def overfull (g : FlashBlock) : List CacheEntry :=
  oneSlot nameB (g.dataLen - 3) ++ oneSlot nameA 1

section

variable {g : FlashBlock} (hg : 3 ≤ g.dataLen)

theorem envPrefix_overfull (g : FlashBlock) : envPrefix (overfull g) = overfull g := by
  simp [overfull, oneSlot, envPrefix]

include hg

theorem imageLen_fullSlot : imageLen (oneSlot nameB (g.dataLen - 3)) = g.dataLen := by
  have : nameB.strlen = 1 := rfl
  rw [imageLen_oneSlot]
  omega

theorem not_refused_overfull : ¬ Refused g (overfull g) := by
  have hdrop : (overfull g).dropLast = oneSlot nameB (g.dataLen - 3) := rfl
  rw [Refused, envPrefix_overfull, hdrop, imageLen_fullSlot hg]
  omega

theorem envData_overfull :
    envData g.dataLen (overfull g) = envData g.dataLen (oneSlot nameB (g.dataLen - 3)) := by
  have hlen := length_imageOf (oneSlot nameB (g.dataLen - 3))
  rw [imageLen_fullSlot hg] at hlen
  rw [envData, envData, overfull, imageOf_append, append_assoc,
    take_append_of_le_length hlen.ge, take_append_of_le_length hlen.ge]

theorem not_reloadsAmong_overfull (n : Nat) :
    ¬ ReloadsAmong g (overfull g) (oneSlot nameA n) (overfull g) := by
  have hfull := imageLen_fullSlot hg
  have hself : (envPrefix (overfull g)).map (·.split) = overfull g := by
    have hname : ∀ e ∈ overfull g, e.NoEq := by
      simp [overfull, oneSlot, CacheEntry.NoEq, nameA, nameB]
    rw [map_split_eq_self fun e he =>
      ⟨isSome_of_mem_envPrefix he, hname e (envPrefix_overfull g ▸ he)⟩, envPrefix_overfull]
  rintro ⟨c, hloads, hc⟩
  rw [hself] at hloads
  -- the image does not fit, and what is loaded ends where the first slot ends
  rcases hloads with ⟨hfit, -⟩ | ⟨-, hpre, h1, h2⟩
  · rw [overfull, imageLen_append, hfull, imageLen_oneSlot] at hfit
    omega
  · have hslot : c = oneSlot nameB (g.dataLen - 3) := by
      refine eq_of_prefix_of_full hfull.le hpre h1 h2 ?_
      intro e rest _
      rw [imageLen_append, hfull, imageLen_cons]
      omega
    subst hslot
    rcases hc with hc | hc | hc
    · simp [oneSlot, nameA, nameB] at hc
    · simp [overfull, oneSlot] at hc
    · simp [oneSlot] at hc

end

/-- A slot behind a data area that is exactly full is lost without any power cut:
    both caches are committed with return value 0, their CRCs differ, and the next
    start finds neither the old cache nor the new one nor an empty one. -/
theorem cutCommit_loses_slot :
    (nvramCommit (KBlock.pending rtdevBlock (oneSlot nameA 8185)) (fun _ => 0xFF)).ret = 0 ∧
      nvCrc32 0 ((constructEnv rtdevBlock (oneSlot nameA 8185)).data rtdevBlock) ≠
        nvCrc32 0 ((constructEnv rtdevBlock (overfull rtdevBlock)).data rtdevBlock) ∧
      ¬ CrashOk false rtdevBlock
        ((nvramCommit (KBlock.pending rtdevBlock (oneSlot nameA 8185)) (fun _ => 0xFF)).flash
          (fun _ => 0xFF)) (cutCommit rtdevBlock (overfull rtdevBlock)
          ((nvramCommit (KBlock.pending rtdevBlock (oneSlot nameA 8185)) (fun _ => 0xFF)).flash
            (fun _ => 0xFF)) 2) (oneSlot nameA 8185) (overfull rtdevBlock) := by
  have hg : 3 ≤ rtdevBlock.dataLen := by decide
  have hA := not_refused_oneSlot rtdevBlock nameA 8185
  have hB := not_refused_overfull hg
  refine ⟨nvramCommit_pending_ret hA _, ?_, ?_⟩
  -- the new block holds only the bytes of its first slot
  · have hn : 8185 = rtdevBlock.dataLen - 3 := by decide
    have hpre : envPrefix (oneSlot nameA 8185) = oneSlot nameA 8185 := by
      simp [oneSlot, envPrefix]
    rw [constructEnv_data (not_full_of_not_refused hA),
      constructEnv_data (not_full_of_not_refused hB), envPrefix_overfull, envData_overfull hg, hpre,
      hn]
    exact nvCrc32_oneSlot_ne rtdevBlock.two_le_dataLen _
  · intro h
    have hfinds := h.finds
    rw [cutCommit, nvramCommit_pending_writes hB, take_commitWrites,
      findsOneOf_committed_iff (by simp [overfull, oneSlot, maxCacheEntry]) hB] at hfinds
    exact not_reloadsAmong_overfull hg 8185 hfinds

end RalinkSdk.Nvram
