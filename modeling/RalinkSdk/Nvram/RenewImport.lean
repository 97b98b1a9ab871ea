import RalinkSdk.Nvram.Renew

/-!
# What a settings file leaves in the cache

`renew_nvram` cuts the last byte off every line, also off a last line that has no line end: then
its value comes out one character short.
-/

namespace RalinkSdk.Nvram

open Lib List Option Nat

/-! ## Setting names in a cache of limited size -/

def cacheSet (cache : List CacheEntry) (name value : CStr) : List CacheEntry :=
  if name ∈ cache.map (·.name) then cacheReplace cache name (some value)
  else if cache.length = maxCacheEntry then cache
  else cache ++ [⟨name, some value⟩]

/-- The cache after a list of names and values. -/
def setAll (cache : List CacheEntry) (ps : List (CStr × CStr)) : List CacheEntry :=
  ps.foldl (fun cache p => cacheSet cache p.1 p.2) cache

/-- The value that the list gives to a name last. -/
def lastOf : List (CStr × CStr) → CStr → Option CStr
  | [], _ => none
  | p :: ps, name => (lastOf ps name).or (if p.1 = name then some p.2 else none)

theorem names_cacheSet (cache : List CacheEntry) (name value : CStr) :
    (cacheSet cache name value).map (·.name) =
      if name ∈ cache.map (·.name) ∨ cache.length = maxCacheEntry then cache.map (·.name)
      else cache.map (·.name) ++ [name] := by
  unfold cacheSet
  by_cases hmem : name ∈ cache.map (·.name)
  · simp only [hmem, if_true, true_or, map_name_cacheReplace]
  · by_cases hfull : cache.length = maxCacheEntry
    · simp only [hmem, hfull, if_true, if_false, or_true]
    · simp only [hmem, hfull, if_false, or_false, map_append, map_cons, map_nil]

theorem lookup_cacheSet (cache : List CacheEntry) (name value m : CStr) :
    cacheLookup (cacheSet cache name value) m =
      if m = name ∧ (name ∈ cache.map (·.name) ∨ cache.length ≠ maxCacheEntry) then some value
      else cacheLookup cache m := by
  unfold cacheSet
  by_cases hmem : name ∈ cache.map (·.name)
  · rw [if_pos hmem, cacheLookup_cacheReplace hmem]
    simp only [hmem, true_or, and_true]
  · by_cases hfull : cache.length = maxCacheEntry
    · rw [if_neg hmem, if_pos hfull, if_neg]
      rintro ⟨-, h | h⟩
      · exact hmem h
      · exact h hfull
    · rw [if_neg hmem, if_neg hfull, cacheLookup_append_fresh hmem]
      simp only [hfull, ne_eq, not_false_eq_true, or_true, and_true]

section

variable {cache : List CacheEntry}

theorem length_cacheSet_le (h : cache.length ≤ maxCacheEntry)
    (name value : CStr) : (cacheSet cache name value).length ≤ maxCacheEntry := by
  have hnames := congrArg List.length (names_cacheSet cache name value)
  rw [length_map] at hnames
  rw [hnames]
  split
  · rw [length_map]
    exact h
  · next hroom =>
    have hne : cache.length ≠ maxCacheEntry := fun heq => hroom (.inr heq)
    rw [length_append, length_map, length_singleton]
    omega

/-- **The slots after a run**: those that were taken, and then the new names in the order in which
    they come first, as far as there is room. -/
theorem names_setAll (ps : List (CStr × CStr)) (h : cache.length ≤ maxCacheEntry) :
    (setAll cache ps).map (·.name) =
      (cache.map (·.name) ++
        ((ps.map (·.1)).filter (· ∉ cache.map (·.name))).eraseDups).take maxCacheEntry := by
  induction ps generalizing cache with
  | nil =>
    rw [setAll, foldl_nil, map_nil, filter_nil, eraseDups_nil,
      append_nil, take_of_length_le (by rw [length_map]; exact h)]
  | cons p ps ih =>
    have hstep : setAll cache (p :: ps) = setAll (cacheSet cache p.1 p.2) ps := rfl
    rw [hstep, ih (length_cacheSet_le h p.1 p.2), names_cacheSet, map_cons]
    by_cases hmem : p.1 ∈ cache.map (·.name)
    · rw [if_pos (.inl hmem), filter_cons_of_neg (by simpa using hmem)]
    · rw [filter_cons_of_pos (by simpa using hmem), eraseDups_cons]
      by_cases hfull : cache.length = maxCacheEntry
      · -- nothing more goes in
        have hlen : (cache.map (·.name)).length = maxCacheEntry := by rw [length_map, hfull]
        rw [if_pos (.inr hfull), take_append_of_le_length hlen.ge, take_append_of_le_length hlen.ge]
      · rw [if_neg (not_or.mpr ⟨hmem, hfull⟩), append_assoc, singleton_append, List.filter_filter]
        congr 4
        apply filter_congr
        intro n _
        simp only [mem_append, mem_singleton, not_or, Bool.decide_and]
        rw [Bool.and_comm]
        congr 1
        rw [decide_not, Bool.beq_eq_decide_eq]

/-- **The values after a run**: a name that has a slot has the last value it was given. -/
theorem lookup_setAll (ps : List (CStr × CStr)) (h : cache.length ≤ maxCacheEntry) (m : CStr) :
    cacheLookup (setAll cache ps) m =
      if m ∈ (setAll cache ps).map (·.name) then (lastOf ps m).or (cacheLookup cache m)
      else none := by
  by_cases hslot : m ∈ (setAll cache ps).map (·.name)
  · rw [if_pos hslot]
    induction ps generalizing cache with
    | nil => rfl
    | cons p ps ih =>
      have hstep : setAll cache (p :: ps) = setAll (cacheSet cache p.1 p.2) ps := rfl
      rw [hstep] at hslot ⊢
      rw [ih (length_cacheSet_le h p.1 p.2) hslot, lookup_cacheSet, lastOf, Option.or_assoc]
      by_cases hm : p.1 = m
      · -- a name that has a slot in the end is set when it comes
        have hcan : p.1 ∈ cache.map (·.name) ∨ cache.length ≠ maxCacheEntry := by
          by_contra hnot
          obtain ⟨hmem, hfull⟩ := not_or.mp hnot
          have hfull := not_not.mp hfull
          rw [names_setAll ps (length_cacheSet_le h p.1 p.2), names_cacheSet,
            if_pos (.inr hfull), take_append_of_le_length (by rw [length_map, hfull]),
            take_of_length_le (by rw [length_map]; exact h), ← hm] at hslot
          exact hmem hslot
        rw [if_pos ⟨hm.symm, hcan⟩, if_pos hm, some_or]
      · rw [if_neg (fun hand => hm hand.1.symm), if_neg hm, none_or]
  · rw [if_neg hslot]
    exact cacheLookup_eq_none_of_not_mem hslot

/-! ## The calls of the library -/

theorem nvramSet_cache (b : KBlock) (flash : Flash) (name value : CStr) :
    (nvramSet b flash Kstrdup.ok name value).2.cache =
      cacheSet (b.checkValid flash).cache name value := by
  unfold cacheSet
  cases hidx : cacheIdx (b.checkValid flash).cache name with
  | none =>
    have hnew := cacheIdx_eq_none_iff.mp hidx
    rw [if_neg hnew]
    by_cases hfull : (b.checkValid flash).cache.length = maxCacheEntry
    · simp [nvramSet, hidx, hfull]
    · simp [nvramSet, hidx, hfull, Kstrdup.ok, Kstrdup.dupValue]
  | some i =>
    have hold : name ∈ (b.checkValid flash).cache.map (·.name) := by
      by_contra hnew
      rw [cacheIdx_eq_none_iff.mpr hnew] at hidx
      cases hidx
    rw [if_pos hold]
    simp [nvramSet, hidx, Kstrdup.ok, Kstrdup.dupValue]

end

/-- The cache of the driver that the next operation on a block finds. -/
def NvProc.cache (s : NvProc) (index : Int) : List CacheEntry := (s.kernel.eff index.toNat).cache

variable {s : NvProc} {index : Int}

section

variable (hidx : s.kernel.indexOk index = true) (name value : CStr)

include hidx

theorem bufset_kernel : (s.bufset index name value).kernel =
      ((libNvramInit LibEnv.good s.kernel (s.lib index) index).2.nvramSet Kstrdup.ok index name
        value).2 := by
  simp only [NvProc.bufset, libNvramBufset, hidx, Bool.true_eq_false, if_false, LibEnv.good,
    ralinkNvramIoctl, if_true]
  split
  · next h => exact absurd h (by decide)
  · split
    · split <;> rfl
    · rfl

/-- **`nvram_bufset`**: the cache of its block gets the name, and no other block changes. -/
theorem cache_bufset {other : Int} (hother : s.kernel.indexOk other = true) :
    (s.bufset index name value).cache other =
      if other = index then cacheSet (s.cache other) name value else s.cache other := by
  have hsame := libNvramInit_same LibEnv.good s.kernel (s.lib index) index
  have hidx' := hsame.indexOk index ▸ hidx
  have hrange : 0 ≤ index ∧ 0 ≤ other := by
    simp only [Kernel.indexOk, decide_eq_true_eq] at hidx hother
    exact ⟨hidx.1, hother.1⟩
  unfold NvProc.cache
  rw [bufset_kernel hidx, Kernel.nvramSet_eff _ _ hidx']
  by_cases heq : other = index
  · rw [if_pos (by rw [heq]), if_pos heq, nvramSet_cache, heq]
    exact congrArg (fun b => cacheSet b.cache name value) (hsame.eff index.toNat)
  · rw [if_neg (by omega), if_neg heq, hsame.eff]

theorem dualImage_bufset : (s.bufset index name value).kernel.dualImage = s.kernel.dualImage := by
  have hsame := libNvramInit_same LibEnv.good s.kernel (s.lib index) index
  have hidx' := hsame.indexOk index ▸ hidx
  rw [bufset_kernel hidx, Kernel.nvramSet, if_pos hidx']
  exact hsame.dualImage

end

theorem cache_init (s : NvProc) (index other : Int) : (s.init index).cache other = s.cache other := by
  have hsame := libNvramInit_same LibEnv.good s.kernel (s.lib index) index
  exact congrArg KBlock.cache (hsame.eff other.toNat)

theorem dualImage_init (s : NvProc) (index : Int) :
    (s.init index).kernel.dualImage = s.kernel.dualImage :=
  (libNvramInit_same LibEnv.good s.kernel (s.lib index) index).dualImage

section

variable (hidx : s.kernel.indexOk index = true)

include hidx

theorem commit_kernel : (s.commit index).kernel =
      ((libNvramInit LibEnv.good s.kernel (s.lib index) index).2.nvramCommit index).2 := by
  simp [NvProc.commit, libNvramCommit, hidx, LibEnv.good, ralinkNvramIoctl]

theorem cache_commit : (s.commit index).cache index = s.cache index := by
  have hsame := libNvramInit_same LibEnv.good s.kernel (s.lib index) index
  have hidx' := hsame.indexOk index ▸ hidx
  unfold NvProc.cache
  rw [commit_kernel hidx, Kernel.nvramCommit, if_pos hidx', Kernel.eff]
  simp only [Kernel.setBlock, Function.update_self]
  rw [checkValid_of_valid (nvramCommit_block_valid _ _), nvramCommit_block_cache]
  exact congrArg KBlock.cache (hsame.eff index.toNat)

theorem indexOk_commit : (s.commit index).kernel.indexOk index = true := by
  have hsame := libNvramInit_same LibEnv.good s.kernel (s.lib index) index
  have hidx' := hsame.indexOk index ▸ hidx
  rw [commit_kernel hidx, Kernel.nvramCommit, if_pos hidx']
  exact hidx'

theorem cache_close : (s.close index).cache index = s.cache index := by
  unfold NvProc.close
  split
  · split
    · exact cache_commit hidx
    · rfl
  · rfl

end

/-! ## Settings files -/

/-- A line of a settings file behind `Default`. -/
inductive SettingLine where
  | blank
  | comment (text : List UInt8)
  | setting (name value : CStr)

/-- The line without its end. -/
def SettingLine.text : SettingLine → List UInt8
  | .blank => []
  | .comment text => hashByte :: text
  | .setting name value => name.bytes ++ 0x3d :: value.bytes

/-- The line is one line, and a setting is not taken for a comment and has its name before the
    first `'='`. -/
def SettingLine.Ok (l : SettingLine) : Prop :=
  newlineByte ∉ l.text ∧
    match l with
    | .setting name _ => (0x3d : UInt8) ∉ name.bytes ∧ name.bytes.head? ≠ some hashByte
    | _ => True

/-- The lines with their ends; the last one may have none. -/
def lineChunks : List SettingLine → Bool → List (List UInt8)
  | [], _ => []
  | [l], newline => [if newline then l.text ++ [newlineByte] else l.text]
  | l :: l' :: ls, newline => (l.text ++ [newlineByte]) :: lineChunks (l' :: ls) newline

/-- A settings file: lines that fit into `buf`, with or without a line end after the last one. -/
structure SettingsFile where
  lines : List SettingLine
  newline : Bool
  ok : ∀ l ∈ lines, l.Ok
  fits : ∀ c ∈ lineChunks lines newline, c.length ≤ bufsz - 1

/-- The content of the file; without other lines `Default` is the last one. -/
def SettingsFile.bytes (f : SettingsFile) : List UInt8 :=
  if f.lines = [] ∧ f.newline = false then ascii "Default"
  else ascii "Default" ++ newlineByte :: (lineChunks f.lines f.newline).flatten

/-- A line as a name and a value. -/
def SettingLine.pair : SettingLine → Option (CStr × CStr)
  | .setting name value => some (name, value)
  | _ => none

/-- The names and values that the file gives. -/
def SettingsFile.settings (f : SettingsFile) : List (CStr × CStr) :=
  f.lines.filterMap SettingLine.pair

/-! ## Reading the file -/

variable {text : List UInt8}

theorem takeLine_line (hline : newlineByte ∉ text) {n : Nat}
    (hn : text.length < n) (rest : List UInt8) :
    takeLine n (text ++ newlineByte :: rest) = text ++ [newlineByte] := by
  induction text generalizing n with
  | nil =>
    obtain ⟨n, rfl⟩ := exists_eq_succ_of_ne_zero (Nat.ne_of_gt hn)
    simp [takeLine]
  | cons b text ih =>
    obtain ⟨n, rfl⟩ := exists_eq_succ_of_ne_zero (Nat.ne_zero_of_lt hn)
    obtain ⟨hb, htext⟩ := not_or.mp (mt mem_cons.mpr hline)
    rw [cons_append, takeLine, if_neg (Ne.symm hb), ih htext (lt_of_succ_lt_succ hn),
      cons_append]

theorem takeLine_last (hline : newlineByte ∉ text) {n : Nat}
    (hn : text.length ≤ n) : takeLine n text = text := by
  induction text generalizing n with
  | nil => cases n <;> rfl
  | cons b text ih =>
    obtain ⟨n, rfl⟩ := exists_eq_succ_of_ne_zero (Nat.ne_zero_of_lt hn)
    obtain ⟨hb, htext⟩ := not_or.mp (mt mem_cons.mpr hline)
    rw [takeLine, if_neg (Ne.symm hb), ih htext (le_of_succ_le_succ hn)]

theorem fgets_line (hline : newlineByte ∉ text)
    (hn : (text ++ [newlineByte]).length ≤ bufsz - 1) (rest : List UInt8) :
    fgets bufsz (text ++ newlineByte :: rest) = some (text ++ [newlineByte], rest) := by
  rw [length_append, length_singleton] at hn
  have htake := takeLine_line hline (lt_of_succ_le hn) rest
  have hsplit : text ++ newlineByte :: rest = (text ++ [newlineByte]) ++ rest := by simp
  obtain ⟨b, bs, hcons⟩ : ∃ b bs, text ++ newlineByte :: rest = b :: bs :=
    exists_cons_of_ne_nil (by simp)
  rw [hcons] at htake ⊢
  rw [fgets]
  simp only [htake]
  rw [← hcons, hsplit, drop_left]

theorem fgets_last (hline : newlineByte ∉ text) (hne : text ≠ [])
    (hn : text.length ≤ bufsz - 1) : fgets bufsz text = some (text, []) := by
  have htake := takeLine_last hline hn
  obtain ⟨b, bs, rfl⟩ := exists_cons_of_ne_nil hne
  rw [fgets]
  simp only [htake, drop_length]

theorem read_of_noNul {bs : List UInt8} (h : (0 : UInt8) ∉ bs) : (CStr.read bs).bytes = bs :=
  congrArg CStr.bytes (CStr.read_bytes ⟨bs, h⟩)

theorem splitLine_setting {name : CStr} (hname : (0x3d : UInt8) ∉ name.bytes) (value : CStr)
    {t : List UInt8} (ht : (0 : UInt8) ∉ t) : splitLine (name.bytes ++ 0x3d :: (value.bytes ++ t)) =
      some (name, CStr.read (value.bytes ++ t).dropLast) := by
  have hfound : strchr 0x3d (name.bytes ++ 0x3d :: (value.bytes ++ t) ++ [0]) =
      .found name.bytes (value.bytes ++ t ++ [0]) := by
    rw [append_assoc, cons_append]
    exact strchr_append_found hname name.noNul _
  have hnul : (0 : UInt8) ∉ name.bytes ++ 0x3d :: (value.bytes ++ t) := by
    simp [name.noNul, value.noNul, ht]
  have hcut : (name.bytes ++ 0x3d :: (value.bytes ++ t)).dropLast.drop (name.bytes.length + 1) =
      (value.bytes ++ t).dropLast := by
    have hlen : name.bytes.length + (1 + (value.bytes ++ t).length) - 1 -
        (name.bytes.length + 1) = (value.bytes ++ t).length - 1 := by omega
    rw [dropLast_eq_take, drop_take, length_append, length_cons,
      Nat.add_comm (value.bytes ++ t).length 1, hlen, ← drop_drop, drop_left,
      drop_succ_cons, drop_zero, ← dropLast_eq_take]
  simp only [splitLine, hfound, read_of_noNul hnul, hcut, CStr.read_bytes]

/-- A value without its last character. -/
def cutLast (value : CStr) : CStr := CStr.read value.bytes.dropLast

def SettingLine.readPair (newline : Bool) : SettingLine → Option (CStr × CStr)
  | .setting name value => some (name, if newline then value else cutLast value)
  | _ => none

/-- The names and values that the loop reads. -/
def readPairs : List SettingLine → Bool → List (CStr × CStr)
  | [], _ => []
  | [l], newline => (l.readPair newline).toList
  | l :: l' :: ls, newline => (l.readPair true).toList ++ readPairs (l' :: ls) newline

theorem skipped_setting {name value : CStr} (hok : (SettingLine.setting name value).Ok)
    (t : List UInt8) : skipped (name.bytes ++ 0x3d :: t) = false := by
  obtain ⟨hline, -, hhash⟩ := hok
  cases hname : name.bytes with
  | nil => rfl
  | cons b bs =>
    rw [hname, head?_cons] at hhash
    have hnewline : b ≠ newlineByte := by
      rintro rfl
      exact hline (by simp [SettingLine.text, hname])
    have hne : b ≠ hashByte := fun h => hhash (congrArg some h)
    simp [skipped, hnewline, hne]

theorem renewLoop_turn (env : RenewEnv) (mode : Int) {l : SettingLine} (hok : l.Ok)
    (newline : Bool) {file rest : List UInt8}
    (hfgets : fgets bufsz file =
      some (if newline then l.text ++ [newlineByte] else l.text, rest))
    (hne : newline = true ∨ l.text ≠ []) (fuel : Nat) (needCommit : Bool) (s : NvProc) :
    renewLoop env mode (fuel + 1) file needCommit s =
      match (l.readPair newline).toList.foldlM (NvProc.setLine env mode) s with
      | none => .fault
      | some s' => renewLoop env mode fuel rest (needCommit || (l.readPair newline).isSome) s' := by
  rw [renewLoop, hfgets]
  cases l with
  | blank =>
    cases newline with
    | true => simp [SettingLine.text, skipped, SettingLine.readPair]
    | false => exact absurd rfl (hne.resolve_left Bool.false_ne_true)
  | comment text =>
    cases newline <;> simp [SettingLine.text, skipped, SettingLine.readPair]
  | setting name value =>
    have hname := hok.2.1
    cases newline with
    | true =>
      -- the line end is cut off
      have hsplit := splitLine_setting hname value (t := [newlineByte]) (by decide)
      rw [dropLast_concat, CStr.read_bytes] at hsplit
      have htext : (SettingLine.setting name value).text ++ [newlineByte] =
          name.bytes ++ 0x3d :: (value.bytes ++ [newlineByte]) := by simp [SettingLine.text]
      simp only [if_true, htext, skipped_setting hok, hsplit, SettingLine.readPair]
      cases hset : NvProc.setLine env mode s (name, value) <;> simp [hset]
    | false =>
      -- the last character is cut off
      have hsplit := splitLine_setting hname value (t := []) (by decide)
      rw [append_nil] at hsplit
      simp only [Bool.false_eq_true, if_false, SettingLine.text, skipped_setting hok, hsplit,
        SettingLine.readPair, cutLast]
      cases hset : NvProc.setLine env mode s (name, CStr.read value.bytes.dropLast) <;> simp [hset]

/-- **The loop over the file** sets, line by line, what it reads. -/
theorem renewLoop_lines (env : RenewEnv) (mode : Int) (ls : List SettingLine) (newline : Bool)
    (hok : ∀ l ∈ ls, l.Ok) (hfits : ∀ c ∈ lineChunks ls newline, c.length ≤ bufsz - 1)
    (fuel : Nat) (hfuel : (lineChunks ls newline).flatten.length ≤ fuel) (needCommit : Bool)
    (s : NvProc) :
    renewLoop env mode fuel (lineChunks ls newline).flatten needCommit s =
      match (readPairs ls newline).foldlM (NvProc.setLine env mode) s with
      | none => .fault
      | some s' => .eof s' := by
  have heof : ∀ (fuel : Nat) (needCommit : Bool) (s : NvProc),
      renewLoop env mode fuel [] needCommit s = .eof s := by
    intro fuel needCommit s
    cases fuel <;> rfl
  induction ls generalizing fuel needCommit s with
  | nil => exact heof fuel needCommit s
  | cons l ls ih =>
    have hl := hok l mem_cons_self
    cases ls with
    | nil =>
      -- the last line
      simp only [lineChunks, flatten_cons, flatten_nil, append_nil] at hfuel ⊢
      have hfit := hfits _ mem_cons_self
      by_cases hne : newline = true ∨ l.text ≠ []
      · have hfgets : fgets bufsz (if newline then l.text ++ [newlineByte] else l.text) =
            some (if newline then l.text ++ [newlineByte] else l.text, []) := by
          cases newline with
          | true => exact fgets_line hl.1 hfit []
          | false => exact fgets_last hl.1 (hne.resolve_left Bool.false_ne_true) hfit
        have hpos : 0 < (if newline then l.text ++ [newlineByte] else l.text).length := by
          cases newline with
          | true => simp
          | false => exact length_pos_iff.mpr (hne.resolve_left Bool.false_ne_true)
        obtain ⟨fuel, rfl⟩ := exists_eq_succ_of_ne_zero (Nat.ne_of_gt (hpos.trans_le hfuel))
        rw [renewLoop_turn env mode hl newline hfgets hne]
        simp only [heof, readPairs]
      · -- nothing is left of a blank line without an end
        obtain ⟨hnewline, htext⟩ := not_or.mp hne
        have hblank : l.readPair newline = none := by
          cases l with
          | setting name value => simp [SettingLine.text] at htext
          | blank => rfl
          | comment text => rfl
        rw [if_neg hnewline, not_not.mp htext, heof, readPairs, hblank]
        rfl
    | cons l' ls =>
      have hfit := hfits _ mem_cons_self
      have hflat : (lineChunks (l :: l' :: ls) newline).flatten =
          l.text ++ newlineByte :: (lineChunks (l' :: ls) newline).flatten := by
        simp [lineChunks]
      rw [hflat] at hfuel ⊢
      rw [length_append, length_cons] at hfuel
      obtain ⟨fuel, rfl⟩ : ∃ n, fuel = n + 1 := ⟨fuel - 1, by omega⟩
      have hfgets := fgets_line hl.1 hfit (lineChunks (l' :: ls) newline).flatten
      rw [renewLoop_turn env mode hl true (by rw [if_pos rfl]; exact hfgets) (.inl rfl), readPairs,
        foldlM_append]
      cases (l.readPair true).toList.foldlM (NvProc.setLine env mode) s with
      | none => rfl
      | some s' =>
        apply ih
        · intro k hk
          exact hok k (mem_cons_of_mem _ hk)
        · intro c hc
          exact hfits c (mem_cons_of_mem _ hc)
        · omega

theorem findDefault_line (fuel : Nat) (rest : List UInt8) :
    findDefault (fuel + 1) (ascii "Default" ++ newlineByte :: rest) = some rest := by
  have hline : newlineByte ∉ ascii "Default" := by decide
  rw [findDefault, fgets_line hline (by decide)]
  have hskip : skipped (ascii "Default" ++ [newlineByte]) = false := by decide
  have hsame : (ascii "Default" ++ [newlineByte]).take 8 = ascii "Default\n" := by decide
  simp only [hskip, Bool.false_eq_true, if_false, hsame, if_true]

/-! ## What is set -/

/-- The text that goes into the cache for a line. -/
def RenewEnv.written (env : RenewEnv) (p : CStr × CStr) : CStr × CStr :=
  if p.1 = ssid1Name then (p.1, CStr.read (p.2.bytes ++ env.mac6)) else p

def RenewEnv.SsidFits (env : RenewEnv) (ps : List (CStr × CStr)) : Prop :=
  ∀ p ∈ ps, p.1 = ssid1Name → p.2.strlen + env.mac6.length < 30

def NvProc.bufsets (s : NvProc) (index : Int) (ps : List (CStr × CStr)) : NvProc :=
  ps.foldl (fun s p => s.bufset index p.1 p.2) s

theorem setLine_eq (env : RenewEnv) (mode : Int) (s : NvProc) (p : CStr × CStr) :
    s.setLine env mode p =
      if p.1 = ssid1Name ∧ ¬ p.2.strlen + env.mac6.length < 30 then none
      else some (s.bufset mode (env.written p).1 (env.written p).2) := by
  unfold NvProc.setLine RenewEnv.newSsid RenewEnv.written
  by_cases hname : p.1 = ssid1Name
  · by_cases hfit : p.2.strlen + env.mac6.length < 30
    · simp [hname, hfit]
    · simp [hname, hfit]
  · simp [hname]

theorem foldlM_setLine (env : RenewEnv) (mode : Int) (ps : List (CStr × CStr)) (s : NvProc) :
    (env.SsidFits ps → ps.foldlM (NvProc.setLine env mode) s =
      some (s.bufsets mode (ps.map env.written))) ∧
    (¬ env.SsidFits ps → ps.foldlM (NvProc.setLine env mode) s = none) := by
  induction ps generalizing s with
  | nil => exact ⟨fun _ => rfl, fun h => absurd (fun _ hp => by cases hp) h⟩
  | cons p ps ih =>
    have hcons : env.SsidFits (p :: ps) ↔
        (p.1 = ssid1Name → p.2.strlen + env.mac6.length < 30) ∧ env.SsidFits ps :=
      forall_mem_cons
    rw [foldlM_cons, setLine_eq, hcons]
    by_cases hp : p.1 = ssid1Name ∧ ¬ p.2.strlen + env.mac6.length < 30
    · rw [if_pos hp]
      exact ⟨fun h => absurd (h.1 hp.1) hp.2, fun _ => rfl⟩
    · rw [if_neg hp]
      have hp' : p.1 = ssid1Name → p.2.strlen + env.mac6.length < 30 := fun h =>
        not_not.mp fun hlong => hp ⟨h, hlong⟩
      exact ⟨fun h => (ih _).1 h.2, fun h => (ih _).2 fun hps => h ⟨hp', hps⟩⟩

/-- The settings that are made behind the file, if they go into the same block. -/
def RenewEnv.extras (env : RenewEnv) : List (CStr × CStr) :=
  (wanMacAddrName, env.wanMac) ::
    if env.nvbuf.bytes = [] then [] else [(wlancryptName, env.nvbuf)]

theorem indexOk_bufset (hidx : s.kernel.indexOk index = true) (name value : CStr) (other : Int) :
    (s.bufset index name value).kernel.indexOk other = s.kernel.indexOk other := by
  simp only [Kernel.indexOk, dualImage_bufset hidx]

/-- **A run of `nvram_bufset`** on one block. -/
theorem cache_bufsets (hidx : s.kernel.indexOk index = true)
    (ps : List (CStr × CStr)) {other : Int} (hother : s.kernel.indexOk other = true) :
    (s.bufsets index ps).cache other =
        (if other = index then setAll (s.cache other) ps else s.cache other) ∧
      (s.bufsets index ps).kernel.dualImage = s.kernel.dualImage := by
  induction ps generalizing s with
  | nil =>
    refine ⟨?_, rfl⟩
    split <;> rfl
  | cons p ps ih =>
    have hidx' : (s.bufset index p.1 p.2).kernel.indexOk index = true := by
      rw [indexOk_bufset hidx]
      exact hidx
    have hother' : (s.bufset index p.1 p.2).kernel.indexOk other = true := by
      rw [indexOk_bufset hidx]
      exact hother
    obtain ⟨hcache, hdual⟩ := ih hidx' hother'
    rw [cache_bufset hidx p.1 p.2 hother] at hcache
    refine ⟨hcache.trans ?_, hdual.trans (dualImage_bufset hidx p.1 p.2)⟩
    by_cases heq : other = index
    · simp only [heq, if_true]
      rfl
    · simp only [heq, if_false]

theorem indexOk_rt2860 (k : Kernel) : k.indexOk (rt2860Nvram k.dualImage) = true := by
  unfold Kernel.indexOk rt2860Nvram
  cases k.dualImage <;> decide

theorem setExtras_eq (env : RenewEnv) (s : NvProc) :
    s.setExtras env = s.bufsets (rt2860Nvram s.kernel.dualImage) env.extras := by
  unfold NvProc.setExtras RenewEnv.extras
  simp only [dualImage_bufset (indexOk_rt2860 s.kernel)]
  split <;> rfl

/-! ## The whole import -/

def NvProc.afterClear (k : Kernel) (mode : Int) : NvProc :=
  ⟨(k.nvramClear mode).2, fun _ => LBlock.start⟩

theorem cache_afterClear {k : Kernel} {mode : Int} (hidx : k.indexOk mode = true)
    (hfresh : (k.fb mode.toNat).valid = false → (k.fb mode.toNat).cache = []) :
    (NvProc.afterClear k mode).cache mode = [] := by
  unfold NvProc.afterClear NvProc.cache Kernel.eff
  simp only [Kernel.nvramClear, if_pos hidx, Kernel.setBlock, Function.update_self]
  exact nvramClear_checkValid (k.fb mode.toNat) k.flash hfresh

theorem afterClear_dualImage (k : Kernel) (mode : Int) :
    (NvProc.afterClear k mode).kernel.dualImage = k.dualImage := by
  unfold NvProc.afterClear Kernel.nvramClear
  split <;> rfl

/-- What the process has set in the end: the lines of the file and, in the block of the WLAN
    driver, the two settings behind them. -/
def SettingsFile.written (f : SettingsFile) (env : RenewEnv) (main : Bool) : List (CStr × CStr) :=
  (readPairs f.lines f.newline).map env.written ++ if main then env.extras else []

/-- **The import as a run of `nvram_bufset`.** -/
theorem renewNvram_eq (env : RenewEnv) {mode : Int}
    (hidx : s.kernel.indexOk mode = true) (f : SettingsFile)
    (hmore : ¬ (f.lines = [] ∧ f.newline = false)) :
    (¬ env.SsidFits (readPairs f.lines f.newline) → renewNvram env mode f.bytes s = none) ∧
    (env.SsidFits (readPairs f.lines f.newline) →
      ∃ s', renewNvram env mode f.bytes s = some (0, s') ∧
        s'.cache mode = setAll (s.cache mode)
          (f.written env (mode = rt2860Nvram s.kernel.dualImage))) := by
  have hlength : f.bytes.length = (f.bytes.length - 1) + 1 := by
    rw [SettingsFile.bytes, if_neg hmore, length_append, length_cons, ← Nat.add_assoc,
      Nat.add_sub_cancel]
  have hdefault : findDefault f.bytes.length f.bytes =
      some (lineChunks f.lines f.newline).flatten := by
    rw [hlength]
    unfold SettingsFile.bytes
    rw [if_neg hmore]
    exact findDefault_line _ _
  have hloop := renewLoop_lines env mode f.lines f.newline f.ok f.fits _ le_rfl false (s.init mode)
  have hfold := foldlM_setLine env mode (readPairs f.lines f.newline) (s.init mode)
  constructor
  · intro hlong
    rw [hfold.2 hlong] at hloop
    simp only [renewNvram, hdefault, hloop]
  · intro hfits
    rw [hfold.1 hfits] at hloop
    have hinit : (s.init mode).kernel.indexOk mode = true := by
      simp only [Kernel.indexOk, dualImage_init] at hidx ⊢
      exact hidx
    obtain ⟨hcache, hdual⟩ := cache_bufsets hinit
      ((readPairs f.lines f.newline).map env.written) hinit
    generalize (s.init mode).bufsets mode ((readPairs f.lines f.newline).map env.written) = s₁
      at hloop hcache hdual
    refine ⟨((s₁.setExtras env).commit mode).close mode, ?_, ?_⟩
    · simp only [renewNvram, hdefault, hloop]
    · have hdual₁ : s₁.kernel.dualImage = s.kernel.dualImage := hdual.trans (dualImage_init s mode)
      have hidx₁ : s₁.kernel.indexOk mode = true := by
        simp only [Kernel.indexOk, hdual₁] at hidx ⊢
        exact hidx
      obtain ⟨hextra, hdual₂⟩ := cache_bufsets (indexOk_rt2860 s₁.kernel) env.extras hidx₁
      rw [← setExtras_eq] at hextra hdual₂
      have hidx₂ : (s₁.setExtras env).kernel.indexOk mode = true := by
        simp only [Kernel.indexOk, hdual₂] at hidx₁ ⊢
        exact hidx₁
      rw [cache_close (indexOk_commit hidx₂), cache_commit hidx₂, hextra, hcache, if_pos rfl,
        cache_init, hdual₁, SettingsFile.written, setAll, setAll, setAll, foldl_append]
      by_cases hmain : mode = rt2860Nvram s.kernel.dualImage
      · simp only [hmain, if_true, decide_true]
      · simp only [hmain, if_false, decide_false, Bool.false_eq_true, foldl_nil]

/-! ## The last value of a name -/

theorem lastOf_append (ps qs : List (CStr × CStr)) (m : CStr) :
    lastOf (ps ++ qs) m = (lastOf qs m).or (lastOf ps m) := by
  induction ps with
  | nil => simp [lastOf]
  | cons p ps ih => rw [cons_append, lastOf, ih, Option.or_assoc, lastOf]

variable {m : CStr}

theorem lastOf_eq_none_iff {ps : List (CStr × CStr)} : lastOf ps m = none ↔ m ∉ ps.map (·.1) := by
  induction ps with
  | nil => simp [lastOf]
  | cons p ps ih =>
    rw [lastOf, or_eq_none_iff, ih, map_cons, mem_cons, not_or, and_comm]
    refine and_congr_left' ?_
    rw [ite_eq_right_iff, eq_comm (a := m)]
    exact ⟨fun h hp => some_ne_none _ (h hp), fun h hp => absurd hp h⟩

theorem lastOf_written (env : RenewEnv) (ps : List (CStr × CStr))
    (hm : m ≠ ssid1Name) : lastOf (ps.map env.written) m = lastOf ps m := by
  induction ps with
  | nil => rfl
  | cons p ps ih =>
    rw [map_cons, lastOf, ih, lastOf]
    by_cases hname : p.1 = ssid1Name
    · have hp : p.1 ≠ m := fun h => hm (h ▸ hname)
      simp only [RenewEnv.written, if_pos hname, if_neg hp]
    · simp only [RenewEnv.written, if_neg hname]

theorem names_written (env : RenewEnv) (ps : List (CStr × CStr)) :
    (ps.map env.written).map (·.1) = ps.map (·.1) := by
  rw [List.map_map]
  apply map_congr_left
  intro p _
  simp only [Function.comp, RenewEnv.written]
  split <;> rfl

theorem lastOf_extras (env : RenewEnv) (hm : m ≠ wanMacAddrName) : lastOf env.extras m =
      if env.nvbuf.bytes ≠ [] ∧ m = wlancryptName then some env.nvbuf else none := by
  unfold RenewEnv.extras
  by_cases hnvbuf : env.nvbuf.bytes = []
  · simp [hnvbuf, lastOf, Ne.symm hm]
  · simp [hnvbuf, lastOf, Ne.symm hm, eq_comm]

theorem readPair_true (l : SettingLine) : l.readPair true = l.pair := by
  cases l <;> rfl

theorem readPairs_concat (ls : List SettingLine) (l : SettingLine) (newline : Bool) :
    readPairs (ls ++ [l]) newline =
      ls.filterMap SettingLine.pair ++ (l.readPair newline).toList := by
  induction ls with
  | nil => rfl
  | cons k ls ih =>
    have hstep : readPairs (k :: (ls ++ [l])) newline =
        (k.readPair true).toList ++ readPairs (ls ++ [l]) newline := by
      cases ls <;> rfl
    rw [cons_append, hstep, ih, readPair_true, ← append_assoc, filterMap_cons]
    cases k.pair <;> rfl

/-! ## When the import is faithful -/

/-- The last line has no end and gives the name a value that is not empty. -/
def SettingsFile.CutShort (f : SettingsFile) (name : CStr) : Prop :=
  f.newline = false ∧
    ∃ value, f.lines.getLast? = some (.setting name value) ∧ value.bytes ≠ []

theorem cutLast_eq_self_iff (value : CStr) : cutLast value = value ↔ value.bytes = [] := by
  constructor
  · intro h
    have hbytes := congrArg (fun v : CStr => v.bytes.length) h
    have hnul : (0 : UInt8) ∉ value.bytes.dropLast :=
      fun hmem => value.noNul (mem_of_mem_dropLast hmem)
    simp only [cutLast, read_of_noNul hnul, length_dropLast] at hbytes
    exact length_eq_zero_iff.mp (by omega)
  · intro h
    rw [cutLast, h, dropLast_nil, ← h, CStr.read_bytes]

theorem names_readPairs (ls : List SettingLine) (newline : Bool) :
    (readPairs ls newline).map (·.1) = (ls.filterMap SettingLine.pair).map (·.1) := by
  induction ls using reverseRecOn with
  | nil => rfl
  | append_singleton ls l _ =>
    rw [readPairs_concat, map_append, filterMap_append, map_append]
    congr 1
    cases l <;> rfl

/-- **The values that the loop reads** are those of the file, but for a last line that is cut
    short. -/
theorem lastOf_readPairs_iff (f : SettingsFile) (m : CStr) :
    lastOf (readPairs f.lines f.newline) m = lastOf f.settings m ↔ ¬ f.CutShort m := by
  unfold SettingsFile.CutShort SettingsFile.settings
  rcases eq_nil_or_concat' f.lines with hnil | ⟨ls, l, hlines⟩
  · simp [hnil, readPairs]
  · rw [hlines, readPairs_concat, filterMap_append, lastOf_append, lastOf_append, getLast?_concat]
    cases l with
    | blank => simp [SettingLine.readPair, SettingLine.pair, filterMap_cons]
    | comment text => simp [SettingLine.readPair, SettingLine.pair, filterMap_cons]
    | setting name value =>
      cases hnewline : f.newline with
      | true => simp [SettingLine.readPair, SettingLine.pair]
      | false =>
        by_cases hname : name = m
        · simp [SettingLine.readPair, SettingLine.pair, lastOf, hname, cutLast_eq_self_iff]
        · simp [SettingLine.readPair, SettingLine.pair, lastOf, hname]

theorem mem_take_eraseDups_append {l l' : List CStr} (hm : m ∈ l) (n : Nat) :
    m ∈ (l ++ l').eraseDups.take n ↔ m ∈ l.eraseDups.take n := by
  rw [eraseDups_append, take_append, mem_append]
  refine or_iff_left fun hlate => ?_
  have hlate := mem_eraseDups.mp (mem_of_mem_take hlate)
  simp [removeAll, hm] at hlate

/-- **The import is faithful**: it returns, and every name but the two that are treated specially
    has the value of its last line, or, if the file does not give it, the one it had before. -/
def ImportFaithful (before : NvProc) (mode : Int) (f : SettingsFile)
    (out : Option (Int × NvProc)) : Prop :=
  ∃ ret s, out = some (ret, s) ∧
    ∀ name, name ≠ ssid1Name → name ≠ wanMacAddrName →
      cacheLookup (s.cache mode) name =
        (lastOf f.settings name).or (cacheLookup (before.cache mode) name)

/-- The key goes into the block of the file. -/
def RenewEnv.SetsKey (env : RenewEnv) (main : Bool) : Prop :=
  main = true ∧ env.nvbuf.bytes ≠ []

/-- What a file has to fulfil; `main` is whether its block is that of the WLAN driver. -/
structure SettingsFile.Importable (f : SettingsFile) (env : RenewEnv) (main : Bool) : Prop where
  /-- The text of every `SSID1` fits into `new_ssid`. -/
  ssid : env.SsidFits (readPairs f.lines f.newline)
  /-- The names are among the first ones for which the cache has slots. -/
  room : ∀ name ∈ f.settings.map (·.1), name ≠ ssid1Name → name ≠ wanMacAddrName →
    name ∈ (f.settings.map (·.1)).eraseDups.take maxCacheEntry
  /-- Only a name that is treated specially comes on a last line without an end. -/
  lastLine : ∀ name, f.CutShort name →
    name = ssid1Name ∨ name = wanMacAddrName ∨ env.SetsKey main ∧ name = wlancryptName
  /-- A key that gets a slot is the one that the file gives. -/
  key : env.SetsKey main →
    wlancryptName ∈ ((f.written env main).map (·.1)).eraseDups.take maxCacheEntry →
    lastOf f.settings wlancryptName = some env.nvbuf

section

variable (f : SettingsFile) (env : RenewEnv) (main : Bool)

theorem names_writtenFile : (f.written env main).map (·.1) =
      f.settings.map (·.1) ++ (if main then env.extras else []).map (·.1) := by
  rw [SettingsFile.written, map_append, names_written, names_readPairs, SettingsFile.settings]

theorem lastOf_writtenFile (hssid : m ≠ ssid1Name) (hwan : m ≠ wanMacAddrName) :
    lastOf (f.written env main) m =
      (if main = true ∧ env.nvbuf.bytes ≠ [] ∧ m = wlancryptName then some env.nvbuf
        else none).or (lastOf (readPairs f.lines f.newline) m) := by
  rw [SettingsFile.written, lastOf_append, lastOf_written env _ hssid]
  congr 1
  cases main with
  | true => simp only [if_true, lastOf_extras env hwan, true_and]
  | false => simp [lastOf]

theorem lookup_written (m : CStr) : cacheLookup (setAll [] (f.written env main)) m =
      if m ∈ ((f.written env main).map (·.1)).eraseDups.take maxCacheEntry then
        lastOf (f.written env main) m else none := by
  have hnames := @names_setAll [] (f.written env main) (Nat.zero_le _)
  simp only [map_nil, nil_append, not_mem_nil, not_false_eq_true, decide_true,
    filter_true] at hnames
  rw [lookup_setAll (f.written env main) (Nat.zero_le _), hnames]
  simp only [show cacheLookup [] m = none from rfl, or_none]

end

theorem lookup_written_eq_of_importable {f : SettingsFile} {env : RenewEnv} {main : Bool}
    (h : f.Importable env main) (hssid : m ≠ ssid1Name) (hwan : m ≠ wanMacAddrName) :
    cacheLookup (setAll [] (f.written env main)) m = lastOf f.settings m := by
  have hslot : m ∈ f.settings.map (·.1) →
      m ∈ ((f.written env main).map (·.1)).eraseDups.take maxCacheEntry := by
    intro hm
    rw [names_writtenFile, mem_take_eraseDups_append hm]
    exact h.room m hm hssid hwan
  have hnone : m ∉ ((f.written env main).map (·.1)).eraseDups.take maxCacheEntry →
      none = lastOf f.settings m := fun hout =>
    (lastOf_eq_none_iff.mpr fun hm => hout (hslot hm)).symm
  rw [lookup_written, lastOf_writtenFile f env main hssid hwan]
  by_cases hkey : main = true ∧ env.nvbuf.bytes ≠ [] ∧ m = wlancryptName
  · rw [if_pos hkey, some_or]
    obtain ⟨hmain, hnvbuf, rfl⟩ := hkey
    split
    · next hin => exact (h.key ⟨hmain, hnvbuf⟩ hin).symm
    · next hout => exact hnone hout
  · rw [if_neg hkey, none_or]
    split
    · apply (lastOf_readPairs_iff f m).mpr
      intro hcut
      rcases h.lastLine m hcut with hm | hm | ⟨⟨hmain, hnvbuf⟩, hm⟩
      · exact hssid hm
      · exact hwan hm
      · exact hkey ⟨hmain, hnvbuf, hm⟩
    · next hout => exact hnone hout

theorem importable_of_lookup_written {f : SettingsFile} {env : RenewEnv} {main : Bool}
    (hfits : env.SsidFits (readPairs f.lines f.newline))
    (h : ∀ m, m ≠ ssid1Name → m ≠ wanMacAddrName →
      cacheLookup (setAll [] (f.written env main)) m = lastOf f.settings m) :
    f.Importable env main := by
  simp only [lookup_written] at h
  have hslot : ∀ m ∈ f.settings.map (·.1), m ≠ ssid1Name → m ≠ wanMacAddrName →
      m ∈ ((f.written env main).map (·.1)).eraseDups.take maxCacheEntry := by
    intro m hm hssid hwan
    by_contra hout
    have hlast := h m hssid hwan
    rw [if_neg hout] at hlast
    exact lastOf_eq_none_iff.mp hlast.symm hm
  have hssid : wlancryptName ≠ ssid1Name := by decide
  have hwan : wlancryptName ≠ wanMacAddrName := by decide
  refine ⟨hfits, ?_, ?_, ?_⟩
  · intro m hm hssid hwan
    have hin := hslot m hm hssid hwan
    rw [names_writtenFile] at hin
    exact (mem_take_eraseDups_append hm _).mp hin
  · intro m hcut
    by_contra hnot
    obtain ⟨hssid, hnot⟩ := not_or.mp hnot
    obtain ⟨hwan, hnot⟩ := not_or.mp hnot
    have hm : m ∈ f.settings.map (·.1) := by
      obtain ⟨-, value, hlast, -⟩ := hcut
      exact mem_map.mpr ⟨(m, value), mem_filterMap.mpr ⟨_, mem_of_getLast? hlast, rfl⟩, rfl⟩
    have hlast := h m hssid hwan
    rw [if_pos (hslot m hm hssid hwan), lastOf_writtenFile f env main hssid hwan, if_neg,
      none_or, lastOf_readPairs_iff] at hlast
    · exact hlast hcut
    · rintro ⟨hmain, hnvbuf, heq⟩
      exact hnot ⟨⟨hmain, hnvbuf⟩, heq⟩
  · rintro ⟨hmain, hnvbuf⟩ hin
    have hlast := h wlancryptName hssid hwan
    rw [if_pos hin, lastOf_writtenFile f env main hssid hwan, if_pos ⟨hmain, hnvbuf, rfl⟩,
      some_or] at hlast
    exact hlast.symm

/-- **When the import of a file is faithful**: the file has no line but a `Default` without an end,
    or its lines are as `Importable` has it. -/
theorem renew_import_iff (env : RenewEnv) {k : Kernel} {mode : Int} (hidx : k.indexOk mode = true)
    (hfresh : (k.fb mode.toNat).valid = false → (k.fb mode.toNat).cache = []) (f : SettingsFile) :
    ImportFaithful (NvProc.afterClear k mode) mode f
        (renewNvram env mode f.bytes (NvProc.afterClear k mode)) ↔
      (f.lines = [] ∧ f.newline = false) ∨
        f.Importable env (mode = rt2860Nvram k.dualImage) := by
  have hempty := cache_afterClear hidx hfresh
  have hdual := afterClear_dualImage k mode
  unfold ImportFaithful
  by_cases hmore : f.lines = [] ∧ f.newline = false
  · -- the only line is not recognized, and nothing is set
    have hformat : findDefault f.bytes.length f.bytes = none := by
      rw [SettingsFile.bytes, if_pos hmore]
      decide
    have hout : renewNvram env mode f.bytes (NvProc.afterClear k mode) =
        some (-1, NvProc.afterClear k mode) := by
      rw [renewNvram, hformat]
    refine iff_of_true ⟨-1, _, hout, fun name _ _ => ?_⟩ (.inl hmore)
    rw [SettingsFile.settings, hmore.1]
    rfl
  · rw [or_iff_right hmore]
    have hidx' : (NvProc.afterClear k mode).kernel.indexOk mode = true := by
      simp only [Kernel.indexOk, hdual] at hidx ⊢
      exact hidx
    obtain ⟨hlong, hshort⟩ := renewNvram_eq env hidx' f hmore
    by_cases hfits : env.SsidFits (readPairs f.lines f.newline)
    · obtain ⟨s, hout, hcache⟩ := hshort hfits
      rw [hempty, hdual] at hcache
      have hlookup : ∀ m, (lastOf f.settings m).or
          (cacheLookup ((NvProc.afterClear k mode).cache mode) m) = lastOf f.settings m := by
        intro m
        rw [hempty]
        exact Option.or_none
      simp only [hlookup]
      constructor
      · rintro ⟨ret, s', hout', hall⟩
        have hsame : s = s' := congrArg Prod.snd (Option.some.inj (hout.symm.trans hout'))
        rw [← hsame, hcache] at hall
        exact importable_of_lookup_written hfits hall
      · intro himport
        refine ⟨0, s, hout, fun name hssid hwan => ?_⟩
        rw [hcache]
        exact lookup_written_eq_of_importable himport hssid hwan
    · -- a write behind `new_ssid`
      refine iff_of_false ?_ fun himport => hfits himport.ssid
      rintro ⟨ret, s, hout, -⟩
      rw [hlong hfits] at hout
      cases hout

/-! ### The same line with and without an end -/

/-- A comment, a blank line and the line `A=b`. -/
def oneSetting : List SettingLine :=
  [.comment [0x20], .blank, .setting (CStr.read [0x41]) (CStr.read [0x62])]

theorem oneSetting_ok : ∀ l ∈ oneSetting, l.Ok := by
  simp only [oneSetting, forall_mem_cons, not_mem_nil, false_imp_iff, implies_true,
    SettingLine.Ok, SettingLine.text, and_true]
  decide

theorem oneSetting_fits (newline : Bool) :
    ∀ c ∈ lineChunks oneSetting newline, c.length ≤ bufsz - 1 := by
  cases newline <;> decide

/-- The file with these lines. -/
def SettingsFile.oneSetting (newline : Bool) : SettingsFile :=
  ⟨Nvram.oneSetting, newline, oneSetting_ok, oneSetting_fits newline⟩

/-- Without the file `/tmp/wlancryptfile` and with no MAC address behind `SSID1`. -/
def RenewEnv.plain : RenewEnv := ⟨CStr.read [], none, CStr.read [0x30]⟩

/-- With an end the line is imported. -/
theorem renew_import_line : ImportFaithful (NvProc.afterClear (Kernel.pending (crowd 1)) 0) 0
      (SettingsFile.oneSetting true)
      (renewNvram RenewEnv.plain 0 (SettingsFile.oneSetting true).bytes
        (NvProc.afterClear (Kernel.pending (crowd 1)) 0)) := by
  have hidx : (Kernel.pending (crowd 1)).indexOk 0 = true := by decide
  apply (renew_import_iff RenewEnv.plain hidx (fun h => by cases h) _).mpr
  refine .inr ⟨?_, ?_, ?_, ?_⟩
  · intro p hp hname
    rw [List.mem_singleton.mp hp] at hname
    exact absurd hname (by decide)
  · intro name hname _ _
    rw [List.mem_singleton.mp hname]
    decide
  · rintro name ⟨hnewline, -⟩
    cases hnewline
  · rintro ⟨-, hnvbuf⟩
    exact absurd rfl hnvbuf

/-- Without an end its value comes out one character short. -/
theorem renew_import_cut_short : ¬ ImportFaithful (NvProc.afterClear (Kernel.pending (crowd 1)) 0) 0
      (SettingsFile.oneSetting false)
      (renewNvram RenewEnv.plain 0 (SettingsFile.oneSetting false).bytes
        (NvProc.afterClear (Kernel.pending (crowd 1)) 0)) := by
  rintro ⟨ret, s, hout, hall⟩
  have hidx : (Kernel.pending (crowd 1)).indexOk 0 = true := by decide
  have hidx' : (NvProc.afterClear (Kernel.pending (crowd 1)) 0).kernel.indexOk 0 = true := by decide
  have hempty := cache_afterClear hidx (fun h => by cases h)
  have hfits : RenewEnv.plain.SsidFits (readPairs (SettingsFile.oneSetting false).lines false) := by
    intro p hp hname
    rw [List.mem_singleton.mp hp] at hname
    exact absurd hname (by decide)
  obtain ⟨s', hout', hcache⟩ := (renewNvram_eq RenewEnv.plain hidx'
    (SettingsFile.oneSetting false) (by decide)).2 hfits
  have hsame : s = s' := congrArg Prod.snd (Option.some.inj (hout.symm.trans hout'))
  have hvalue := hall (CStr.read [0x41]) (by decide) (by decide)
  rw [hsame, hcache, hempty] at hvalue
  revert hvalue
  decide

end RalinkSdk.Nvram
