import RalinkSdk.Nvram.Kernel

/-!
# Serialiser and parser of an env block

What the construction loop puts into memory, and what the parser makes of the
`len` bytes that reach the flash.

- `imageOf es`: the bytes of the entries `es`, one after the other.
- `envPrefix cache`: the entries the loop reaches (it stops at a `NULL` value).
- `buildEnv_eq`: when the capacity check never fires, memory holds
  `imageOf (envPrefix cache)`, however far that runs past the buffer.
- `parseEnv_image`: parsing gives back the entries and goes on with the rest.
- `parseEnv_envData_iff`: what the parser makes of the stored bytes, in all the
  cases of a block that is too small.
-/

namespace RalinkSdk.Nvram

open Lib List

/-! ## The image of a cache -/

/-- The value of a slot, `""` for a `NULL`. -/
def CacheEntry.text (e : CacheEntry) : CStr := e.value.getD CStr.empty

/-- The bytes of the entries, one after the other. -/
def imageOf (es : List CacheEntry) : List UInt8 :=
  es.flatMap fun e => entryBytes e.name e.text

/-- Serialised length of a list of entries, without the ending NUL. -/
def imageLen (es : List CacheEntry) : Nat :=
  (es.map fun e => e.name.strlen + e.text.strlen + 2).sum

/-- The slots the loops over the cache reach: up to the first `NULL` value. -/
def envPrefix (cache : List CacheEntry) : List CacheEntry :=
  cache.takeWhile fun e => e.value.isSome

@[simp] theorem imageOf_nil : imageOf [] = [] := rfl

@[simp] theorem imageOf_cons (e : CacheEntry) (es : List CacheEntry) :
    imageOf (e :: es) = entryBytes e.name e.text ++ imageOf es := by
  simp [imageOf]

@[simp] theorem imageOf_append (es fs : List CacheEntry) :
    imageOf (es ++ fs) = imageOf es ++ imageOf fs := by
  simp [imageOf]

@[simp] theorem imageLen_nil : imageLen [] = 0 := rfl

@[simp] theorem imageLen_cons (e : CacheEntry) (es : List CacheEntry) :
    imageLen (e :: es) = e.name.strlen + e.text.strlen + 2 + imageLen es := by
  simp [imageLen]

@[simp] theorem imageLen_append (es fs : List CacheEntry) :
    imageLen (es ++ fs) = imageLen es + imageLen fs := by
  simp [imageLen]

theorem length_entryBytes (name value : CStr) :
    (entryBytes name value).length = name.strlen + value.strlen + 2 := by
  simp only [entryBytes, CStr.strlen, length_append, length_cons, length_nil]
  omega

@[simp] theorem length_imageOf (es : List CacheEntry) : (imageOf es).length = imageLen es := by
  induction es with
  | nil => rfl
  | cons e es ih => simp [length_entryBytes, ih]

variable {es : List CacheEntry}

theorem imageLen_dropLast_add (h : es ≠ []) :
    imageLen es = imageLen es.dropLast + imageLen [es.getLast h] := by
  rw [← imageLen_append, dropLast_concat_getLast h]

theorem imageLen_dropLast_le (es : List CacheEntry) : imageLen es.dropLast ≤ imageLen es := by
  by_cases h : es = []
  · simp [h]
  · rw [imageLen_dropLast_add h]
    omega

@[simp] theorem envPrefix_nil : envPrefix [] = [] := rfl

variable {e : CacheEntry}

theorem envPrefix_cons_none (he : e.value = none) (es : List CacheEntry) :
    envPrefix (e :: es) = [] := by
  simp [envPrefix, he]

theorem envPrefix_cons_some {v : CStr} (he : e.value = some v)
    (es : List CacheEntry) : envPrefix (e :: es) = e :: envPrefix es := by
  simp [envPrefix, he]

theorem text_of_some {v : CStr} (he : e.value = some v) : e.text = v := by
  simp [CacheEntry.text, he]

variable {cache : List CacheEntry}

theorem isSome_of_mem_envPrefix (h : e ∈ envPrefix cache) : e.value.isSome := by
  have := mem_takeWhile_imp h
  simpa using this

theorem envPrefix_sublist (cache : List CacheEntry) : (envPrefix cache).Sublist cache :=
  takeWhile_sublist _

/-! ## What the construction loop stores -/

theorem buildEnv_full_iff (m : Nat) (cache : List CacheEntry) (p : Nat) (mem : List UInt8) :
    (buildEnv m cache p mem).full = true ↔
      envPrefix cache ≠ [] ∧ m ≤ p + imageLen (envPrefix cache).dropLast + 2 := by
  induction cache generalizing p mem with
  | nil => simp [buildEnv]
  | cons e es ih =>
    cases he : e.value with
    | none => simp [buildEnv, he, envPrefix_cons_none he]
    | some v =>
      rw [envPrefix_cons_some he]
      simp only [buildEnv, he]
      -- the check runs before a slot is written, so the last slot is not counted
      by_cases hm : m ≤ p + 2
      · simp only [hm, if_true, true_iff]
        exact ⟨by simp, by omega⟩
      · simp only [hm, if_false, ih]
        cases hes : envPrefix es with
        | nil => simp [hm]
        | cons e' es' => simp [text_of_some he]; omega

theorem buildEnv_bounds (m : Nat) (cache : List CacheEntry) (p : Nat) (mem : List UInt8)
    (hp : p ≤ mem.length) : (buildEnv m cache p mem).p ≤ (buildEnv m cache p mem).mem.length ∧
      ((buildEnv m cache p mem).full = true → m ≤ (buildEnv m cache p mem).p + 2) := by
  induction cache generalizing p mem with
  | nil => exact ⟨hp, by simp [buildEnv]⟩
  | cons e es ih =>
    cases he : e.value with
    | none => simpa [buildEnv, he] using hp
    | some v =>
      simp only [buildEnv, he]
      by_cases hm : m ≤ p + 2
      · simp only [hm, if_true]
        exact ⟨hp, fun _ => trivial⟩
      · simp only [hm, if_false]
        -- a slot that is written may push the end of the buffer out
        apply ih
        rw [length_memWrite hp, length_entryBytes]
        omega

theorem buildEnv_eq (m : Nat) (cache : List CacheEntry) (pre : List UInt8) (n : Nat)
    (hfull : (buildEnv m cache pre.length (pre ++ replicate n 0)).full = false) :
    buildEnv m cache pre.length (pre ++ replicate n 0) =
      ⟨pre ++ imageOf (envPrefix cache) ++ replicate (n - imageLen (envPrefix cache)) 0,
        pre.length + imageLen (envPrefix cache), false⟩ := by
  induction cache generalizing pre n with
  | nil => simp [buildEnv]
  | cons e es ih =>
    cases he : e.value with
    | none => simp [buildEnv, he, envPrefix_cons_none he]
    | some v =>
      rw [envPrefix_cons_some he]
      simp only [buildEnv, he] at hfull ⊢
      by_cases hm : m ≤ pre.length + 2
      · simp [hm] at hfull
      · simp only [hm, if_false, memWrite_append] at hfull ⊢
        -- the bytes written so far become the prefix of the rest
        have hlen : pre.length + (e.name.strlen + v.strlen + 2) =
            (pre ++ entryBytes e.name v).length := by
          rw [length_append, length_entryBytes]
        rw [hlen] at hfull ⊢
        rw [ih _ _ hfull]
        simp only [length_entryBytes, text_of_some he, imageOf_cons, imageLen_cons,
          append_assoc, length_append, EnvBuild.mk.injEq, and_true]
        refine ⟨?_, by omega⟩
        rw [Nat.sub_sub]

theorem constructEnv_full (g : FlashBlock) (cache : List CacheEntry) : (constructEnv g cache).full =
      (buildEnv g.flashMaxLen cache 0 (replicate g.dataLen 0)).full := by
  simp only [constructEnv]
  split <;> rfl

/-- The `len` bytes that go to the flash for the entries `es`. -/
def envData (len : Nat) (es : List CacheEntry) : List UInt8 :=
  (imageOf es ++ replicate len 0).take len

@[simp] theorem length_envData (len : Nat) (es : List CacheEntry) :
    (envData len es).length = len := by
  simp [envData]

theorem constructEnv_mem {g : FlashBlock} (hfull : (constructEnv g cache).full = false) :
    (constructEnv g cache).mem =
      imageOf (envPrefix cache) ++ 0 ::
        replicate (g.dataLen - imageLen (envPrefix cache) - 1) 0 := by
  have hb : (buildEnv g.flashMaxLen cache 0 (replicate g.dataLen 0)).full = false := by
    rw [← constructEnv_full]
    exact hfull
  have heq := buildEnv_eq g.flashMaxLen cache [] g.dataLen (by simpa using hb)
  simp only [nil_append, length_nil, Nat.zero_add] at heq
  have hw := memWrite_append (imageOf (envPrefix cache)) [0]
    (g.dataLen - imageLen (envPrefix cache))
  simp only [length_imageOf] at hw
  simp [constructEnv, heq, hw]

theorem constructEnv_full_iff (g : FlashBlock) (cache : List CacheEntry) :
    (constructEnv g cache).full = true ↔
      envPrefix cache ≠ [] ∧ g.dataLen + 2 ≤ imageLen (envPrefix cache).dropLast := by
  have hg := g.dataLen_add
  have hiff := buildEnv_full_iff g.flashMaxLen cache 0 (replicate g.dataLen 0)
  rw [constructEnv_full, hiff]
  simp only [sizeofCrc] at hg
  constructor
  · rintro ⟨h1, h2⟩; exact ⟨h1, by omega⟩
  · rintro ⟨h1, h2⟩; exact ⟨h1, by omega⟩

theorem constructEnv_data {g : FlashBlock} (hfull : (constructEnv g cache).full = false) :
    (constructEnv g cache).data g = envData g.dataLen (envPrefix cache) := by
  have hrep : (0 : UInt8) :: replicate (g.dataLen - imageLen (envPrefix cache) - 1) 0 =
      replicate (g.dataLen - imageLen (envPrefix cache) - 1 + 1) 0 := rfl
  rw [EnvBuild.data, constructEnv_mem hfull, hrep, envData, take_append, take_append]
  simp only [length_imageOf, take_replicate]
  congr 2
  omega

theorem constructEnv_spill_iff (g : FlashBlock) (cache : List CacheEntry) :
    (constructEnv g cache).spill g = [] ↔ imageLen (envPrefix cache) + 1 ≤ g.dataLen := by
  cases hfull : (constructEnv g cache).full with
  | false =>
    rw [EnvBuild.spill, constructEnv_mem hfull, drop_eq_nil_iff]
    simp only [length_append, length_imageOf, length_cons, length_replicate]
    omega
  | true =>
    -- a stopped loop has already written past the end
    have hg := g.dataLen_add
    have hm := buildEnv_bounds g.flashMaxLen cache 0 (replicate g.dataLen 0) (by simp)
    have hb : (buildEnv g.flashMaxLen cache 0 (replicate g.dataLen 0)).full = true := by
      rw [← constructEnv_full]
      exact hfull
    have hmem : (constructEnv g cache).mem =
        (buildEnv g.flashMaxLen cache 0 (replicate g.dataLen 0)).mem := by
      simp [constructEnv, hb]
    have hlast := imageLen_dropLast_le (envPrefix cache)
    have hbig := ((constructEnv_full_iff g cache).mp hfull).2
    rw [EnvBuild.spill, drop_eq_nil_iff, hmem]
    simp only [sizeofCrc] at hg
    have := hm.1
    have := hm.2 hb
    constructor
    · intro h; omega
    · intro h; omega

/-! ## What the parser makes of it -/

/-- The name holds no `'='`, so that the parser splits the entry where it was joined. -/
def CacheEntry.NoEq (e : CacheEntry) : Prop := (0x3d : UInt8) ∉ e.name.bytes

instance (e : CacheEntry) : Decidable e.NoEq := inferInstanceAs (Decidable (_ ∉ _))

/-- The parser stops in front of `t`: fewer than two bytes are left, or a NUL is next. -/
def EndsAt (t : List UInt8) : Prop := t.length ≤ 1 ∨ t.head? = some 0

instance (t : List UInt8) : Decidable (EndsAt t) := inferInstanceAs (Decidable (_ ∨ _))

theorem parseEnv_entry (hsome : e.value.isSome) (hname : e.NoEq) (j : Nat) (t : List UInt8) :
    parseEnv (j + 1) (entryBytes e.name e.text ++ t) =
      if EndsAt t then ⟨[e], false⟩ else ⟨e :: (parseEnv j t).entries, (parseEnv j t).overrun⟩ := by
  obtain ⟨v, hv⟩ := Option.isSome_iff_exists.mp hsome
  have hsplit : entryBytes e.name e.text ++ t =
      e.name.bytes ++ 0x3d :: (v.bytes ++ 0 :: t) := by
    simp [entryBytes, text_of_some hv]
  have hfound := strchr_append_found hname e.name.noNul (v.bytes ++ 0 :: t)
  have hvalue := strchr_append_found v.noNul v.noNul t
  have he : (⟨e.name, some v⟩ : CacheEntry) = e := by
    cases e
    simp_all
  rw [hsplit, parseEnv]
  simp only [hfound, hvalue, CStr.read_bytes, he, EndsAt]
  -- the loop ends at the last byte or at a NUL
  by_cases h1 : t.length ≤ 1
  · simp [h1]
  · by_cases h2 : t.head? = some 0
    · simp [h1, h2]
    · simp [h1, h2]

theorem not_endsAt_entry (e : CacheEntry) (t : List UInt8) :
    ¬ EndsAt (entryBytes e.name e.text ++ t) := by
  have h0 := e.name.noNul
  simp only [EndsAt, entryBytes, not_or, length_append, length_cons, length_nil]
  refine ⟨by omega, ?_⟩
  cases hb : e.name.bytes with
  | nil => simp
  | cons b bs =>
    rw [hb] at h0
    simp only [mem_cons, not_or] at h0
    simpa using fun h => h0.1 h.symm

/-- **Parsing an image**: the entries come back in order, and parsing goes on with
    what follows them unless the environment ends there. -/
theorem parseEnv_image (es : List CacheEntry) (hsome : ∀ e ∈ es, e.value.isSome)
    (hname : ∀ e ∈ es, e.NoEq) (j : Nat) (hj : es.length ≤ j) (t : List UInt8) :
    parseEnv j (imageOf es ++ t) =
      if es ≠ [] ∧ EndsAt t then ⟨es, false⟩
      else ⟨es ++ (parseEnv (j - es.length) t).entries, (parseEnv (j - es.length) t).overrun⟩ := by
  induction es generalizing j with
  | nil => simp
  | cons e es ih =>
    obtain ⟨j, rfl⟩ : ∃ k, j = k + 1 := ⟨j - 1, by simp at hj; omega⟩
    have hj' : es.length ≤ j := by simpa using hj
    have hrest := ih (fun e' h => hsome e' (mem_cons_of_mem _ h))
      (fun e' h => hname e' (mem_cons_of_mem _ h)) j hj'
    rw [imageOf_cons, append_assoc,
      parseEnv_entry (hsome e (mem_cons_self ..)) (hname e (mem_cons_self ..))]
    cases es with
    | nil =>
      by_cases ht : EndsAt t
      · simp [ht]
      · simp [ht]
    | cons e' es' =>
      -- between two slots the loop goes on: a slot begins with neither end
      have hne : ¬ EndsAt (imageOf (e' :: es') ++ t) := by
        rw [imageOf_cons, append_assoc]
        exact not_endsAt_entry e' _
      simp only [hne, if_false, hrest]
      by_cases ht : EndsAt t
      · simp [ht]
      · simp [ht]

theorem parseEnv_nul (j : Nat) (t : List UInt8) : parseEnv j (0 :: t) = ⟨[], false⟩ := by
  cases j with
  | zero => rfl
  | succ j => simp [parseEnv, strchr]

theorem parseEnv_truncated (hname : e.NoEq) (j k : Nat) (hk : k < imageLen [e]) :
    parseEnv (j + 1) ((entryBytes e.name e.text).take k) = ⟨[], true⟩ := by
  have hsplit : entryBytes e.name e.text = (e.name.bytes ++ 0x3d :: e.text.bytes) ++ [0] := by
    simp [entryBytes]
  have hlen : k ≤ (e.name.bytes ++ 0x3d :: e.text.bytes).length := by
    simp [CStr.strlen] at hk ⊢
    omega
  rw [hsplit, take_append_of_le_length hlen]
  rcases lt_or_ge e.name.bytes.length k with h | h
  · -- the `'='` is still there, the NUL behind the value is not
    obtain ⟨k', rfl⟩ : ∃ k', k = e.name.bytes.length + (k' + 1) := ⟨k - e.name.bytes.length - 1, by omega⟩
    rw [take_length_add_append, take_succ_cons]
    have hval : (0 : UInt8) ∉ e.text.bytes.take k' := fun h0 =>
      e.text.noNul (mem_of_mem_take h0)
    simp [parseEnv, strchr_append_found hname e.name.noNul, strchr_overrun hval hval]
  · rw [take_append_of_le_length h]
    have h1 : (0x3d : UInt8) ∉ e.name.bytes.take k := fun h0 => hname (mem_of_mem_take h0)
    have h2 : (0 : UInt8) ∉ e.name.bytes.take k := fun h0 =>
      e.name.noNul (mem_of_mem_take h0)
    simp [parseEnv, strchr_overrun h1 h2]

variable {len : Nat}

theorem parseEnv_envData_fits (hsome : ∀ e ∈ es, e.value.isSome) (hname : ∀ e ∈ es, e.NoEq)
    (hes : es.length ≤ maxCacheEntry) (hlen : 0 < len) (hfit : imageLen es ≤ len) :
    parseEnv maxCacheEntry (envData len es) = ⟨es, false⟩ := by
  have hdata : envData len es = imageOf es ++ replicate (len - imageLen es) 0 := by
    rw [envData, take_append, take_of_length_le (by simpa using hfit)]
    simp
  rw [hdata, parseEnv_image es hsome hname _ hes]
  have hend : EndsAt (replicate (len - imageLen es) (0 : UInt8)) := by
    cases len - imageLen es with
    | zero => simp [EndsAt]
    | succ n => simp [EndsAt, replicate_succ]
  by_cases h : es = []
  · subst h
    obtain ⟨n, rfl⟩ : ∃ n, len = n + 1 := ⟨len - 1, by omega⟩
    simp [replicate_succ, parseEnv_nul]
  · simp [h, hend]

theorem parseEnv_envData_dropped (rest : List CacheEntry)
    (hsome : ∀ e' ∈ es, e'.value.isSome) (hname : ∀ e' ∈ es, e'.NoEq)
    (hes : es.length ≤ maxCacheEntry) (hlen : 2 ≤ len)
    (h1 : len ≤ imageLen es + 1) (h2 : imageLen es ≤ len) :
    parseEnv maxCacheEntry (envData len (es ++ rest)) = ⟨es, false⟩ := by
  have hne : es ≠ [] := by
    rintro rfl
    simp at h1
    omega
  -- at most one byte is left behind the slots that fit
  have hdata : ∃ t : List UInt8, t.length ≤ 1 ∧
      envData len (es ++ rest) = imageOf es ++ t := by
    refine ⟨(imageOf rest ++ replicate len 0).take (len - imageLen es), ?_, ?_⟩
    · rw [length_take]
      omega
    · rw [envData, imageOf_append, append_assoc, take_append,
        take_of_length_le (by simpa using h2)]
      simp
  obtain ⟨t, ht, hdata⟩ := hdata
  have hend : EndsAt t := .inl ht
  rw [hdata, parseEnv_image es hsome hname _ hes]
  simp [hne, hend]

theorem parseEnv_envData_cut (rest : List CacheEntry)
    (hsome : ∀ e' ∈ es, e'.value.isSome) (hname : ∀ e' ∈ es ++ [e], e'.NoEq)
    (hes : es.length < maxCacheEntry)
    (h1 : imageLen es + 2 ≤ len) (h2 : len < imageLen (es ++ [e])) :
    parseEnv maxCacheEntry (envData len (es ++ [e] ++ rest)) = ⟨es, true⟩ := by
  have hk : len - imageLen es < imageLen [e] := by
    rw [imageLen_append] at h2
    omega
  have hdata : envData len (es ++ [e] ++ rest) =
      imageOf es ++ (entryBytes e.name e.text).take (len - imageLen es) := by
    have hshort : len - imageLen es ≤ (imageOf [e]).length := by
      rw [length_imageOf]
      exact hk.le
    rw [envData, imageOf_append, imageOf_append, append_assoc, append_assoc,
      take_append, take_of_length_le (by simp; omega), length_imageOf,
      take_append_of_le_length hshort]
    simp
  have hlen2 : 2 ≤ ((entryBytes e.name e.text).take (len - imageLen es)).length := by
    rw [length_take, length_entryBytes]
    simp only [imageLen_cons, imageLen_nil] at hk
    omega
  -- what is left of the slot is long enough for the parser to enter it
  have hhead : ((entryBytes e.name e.text).take (len - imageLen es)).head? ≠ some 0 := by
    have := not_endsAt_entry e []
    simp only [EndsAt, append_nil, not_or] at this
    rw [head?_take]
    intro h
    split at h
    · simp at h
    · exact this.2 h
  have hend : ¬ EndsAt ((entryBytes e.name e.text).take (len - imageLen es)) := by
    rintro (h | h)
    · omega
    · exact hhead h
  obtain ⟨j, hj⟩ : ∃ j, maxCacheEntry - es.length = j + 1 := ⟨maxCacheEntry - es.length - 1, by omega⟩
  rw [hdata, parseEnv_image es hsome (fun e' h => hname e' (mem_append_left _ h)) _ hes.le, hj,
    parseEnv_truncated (hname e (by simp)) j _ hk]
  simp [hend]

/-! ### What comes back, exactly -/

/-- The entries `c` come back from `len` data bytes into which `es` went: all of
    them when they fit, else those of a prefix that ends at one of the last two
    offsets. -/
def LoadsAs (len : Nat) (es c : List CacheEntry) : Prop :=
  (imageLen es ≤ len ∧ c = es) ∨
    (len < imageLen es ∧ c <+: es ∧ len ≤ imageLen c + 1 ∧ imageLen c ≤ len)

theorem exists_longest_fitting (len : Nat) (es : List CacheEntry) :
    ∃ fs rest, es = fs ++ rest ∧ imageLen fs ≤ len ∧
      ∀ e rest', rest = e :: rest' → len < imageLen (fs ++ [e]) := by
  induction es generalizing len with
  | nil => exact ⟨[], [], by simp⟩
  | cons e es ih =>
    -- take slots as long as the next one fits
    rcases Nat.lt_or_ge len (imageLen [e]) with h | h
    · refine ⟨[], e :: es, rfl, Nat.zero_le _, ?_⟩
      intro e' rest' heq
      rw [List.cons.injEq] at heq
      rw [← heq.1]
      exact h
    · obtain ⟨fs, rest, rfl, hfit, hnext⟩ := ih (len - imageLen [e])
      refine ⟨e :: fs, rest, rfl, ?_, ?_⟩
      · simp only [imageLen_cons, imageLen_nil] at h hfit ⊢
        omega
      · intro e' rest' heq
        have := hnext e' rest' heq
        simp only [cons_append, imageLen_cons, imageLen_nil] at h this ⊢
        omega

theorem eq_of_prefix_of_full {fs rest c : List CacheEntry}
    (hfit : imageLen fs ≤ len) (hc : c <+: fs ++ rest) (h1 : len ≤ imageLen c + 1)
    (h2 : imageLen c ≤ len) (hnext : ∀ e rest', rest = e :: rest' → len < imageLen (fs ++ [e])) :
    c = fs := by
  rcases prefix_or_prefix_of_prefix hc (prefix_append fs rest) with ⟨d, rfl⟩ | ⟨d, rfl⟩
  · cases d with
    | nil => simp
    | cons x d =>
      simp only [imageLen_append, imageLen_cons] at hfit
      omega
  · cases d with
    | nil => simp
    | cons x d =>
      -- `x` is the next entry, and it does not fit
      rw [prefix_append_right_inj] at hc
      obtain ⟨t, rfl⟩ := hc
      have := hnext x (d ++ t) rfl
      simp only [imageLen_append, imageLen_cons, imageLen_nil] at this h2
      omega

/-- **What comes back from a data area.**  Parsing stays inside the buffer and
    yields `c` exactly when `LoadsAs` says so; in every other case the parser
    runs off the end of the buffer. -/
theorem parseEnv_envData_iff {es c : List CacheEntry}
    (hsome : ∀ e ∈ es, e.value.isSome) (hname : ∀ e ∈ es, e.NoEq)
    (hslots : es.length ≤ maxCacheEntry) (hlen : 2 ≤ len) :
    parseEnv maxCacheEntry (envData len es) = ⟨c, false⟩ ↔ LoadsAs len es c := by
  -- `fs` are the slots that fit whole, and the first of `rest` does not
  obtain ⟨fs, rest, rfl, hfit, hnext⟩ := exists_longest_fitting len es
  have hsome' : ∀ e ∈ fs, e.value.isSome := fun e h => hsome e (mem_append_left _ h)
  have hname' : ∀ e ∈ fs, e.NoEq := fun e h => hname e (mem_append_left _ h)
  rw [length_append] at hslots
  cases rest with
  | nil =>
    have hp := parseEnv_envData_fits hsome' hname' (by omega) (by omega) hfit
    have hnot : ¬ len < imageLen fs := by omega
    simp [hp, LoadsAs, hfit, hnot, eq_comm]
  | cons e rest =>
    have hover := hnext e rest rfl
    have hbig : len < imageLen (fs ++ e :: rest) := by
      simp only [imageLen_append, imageLen_cons, imageLen_nil] at hover ⊢
      omega
    have hnot : ¬ imageLen (fs ++ e :: rest) ≤ len := by omega
    simp only [LoadsAs, hnot, false_and, false_or, hbig, true_and]
    -- the next slot is either missing altogether or cut in the middle
    rcases Nat.lt_or_ge len (imageLen fs + 2) with hend | hroom
    · rw [parseEnv_envData_dropped _ hsome' hname' (by omega) hlen (by omega) hfit]
      constructor
      · intro h
        rw [EnvParse.mk.injEq] at h
        rw [← h.1]
        exact ⟨prefix_append _ _, by omega, hfit⟩
      · rintro ⟨hc, h1, h2⟩
        rw [eq_of_prefix_of_full hfit hc h1 h2 hnext]
    · have hname'' : ∀ e' ∈ fs ++ [e], e'.NoEq := by
        intro e' h
        apply hname
        rw [append_cons]
        exact mem_append_left _ h
      rw [length_cons] at hslots
      have hcut := parseEnv_envData_cut rest hsome' hname'' (by omega) hroom hover
      rw [append_assoc, singleton_append] at hcut
      rw [hcut]
      constructor
      · intro h
        simp at h
      · rintro ⟨hc, h1, h2⟩
        have := eq_of_prefix_of_full hfit hc h1 h2 hnext
        subst this
        omega

/-! ### Names that hold an `'='` -/

/-- The text `name=value` of a slot. -/
def CacheEntry.joined (e : CacheEntry) : List UInt8 := e.name.bytes ++ 0x3d :: e.text.bytes

theorem CacheEntry.joined_noNul (e : CacheEntry) : (0 : UInt8) ∉ e.joined := by
  have h1 := e.name.noNul
  have h2 := e.text.noNul
  simp [joined, h1, h2]

/-- What the parser makes of a slot: its text, split at the first `'='`. -/
def CacheEntry.split (e : CacheEntry) : CacheEntry where
  name := ⟨e.joined.takeWhile (· != 0x3d), fun h =>
    e.joined_noNul ((takeWhile_sublist _).subset h)⟩
  value := some ⟨(e.joined.dropWhile (· != 0x3d)).tail, fun h =>
    e.joined_noNul ((dropWhile_sublist _).subset (mem_of_mem_tail h))⟩

theorem CacheEntry.split_noEq (e : CacheEntry) : e.split.NoEq := by
  intro h
  simpa using mem_takeWhile_imp h

theorem CacheEntry.split_eq_self (hsome : e.value.isSome) (hname : e.NoEq) : e.split = e := by
  obtain ⟨v, hv⟩ := Option.isSome_iff_exists.mp hsome
  have hp : ∀ b ∈ e.name.bytes, (b != 0x3d) = true := by
    intro b hb
    have : b ≠ 0x3d := fun h => hname (h ▸ hb)
    simpa using this
  -- the first `'='` is the one that was put in
  have htake : e.joined.takeWhile (· != 0x3d) = e.name.bytes := by
    rw [joined, takeWhile_append_of_pos hp]
    simp
  have hdrop : (e.joined.dropWhile (· != 0x3d)).tail = v.bytes := by
    rw [joined, dropWhile_append_of_pos hp, text_of_some hv]
    simp
  cases e with
  | mk name value =>
    simp only at hv
    subst hv
    simp only [split, CacheEntry.mk.injEq, Option.some_inj]
    exact ⟨CStr.ext_bytes htake, CStr.ext_bytes hdrop⟩

theorem map_split_eq_self (h : ∀ e ∈ es, e.value.isSome ∧ e.NoEq) : es.map (·.split) = es := by
  have hself : ∀ e ∈ es, e.split = id e := fun e he =>
    CacheEntry.split_eq_self (h e he).1 (h e he).2
  rw [map_congr_left hself, map_id]

theorem entryBytes_split (e : CacheEntry) :
    entryBytes e.split.name e.split.text = entryBytes e.name e.text := by
  have hdrop : ∃ t, e.joined.dropWhile (· != 0x3d) = 0x3d :: t := by
    have hne : e.joined.dropWhile (· != 0x3d) ≠ [] := by
      intro h
      rw [dropWhile_eq_nil_iff] at h
      have := h 0x3d (by simp [CacheEntry.joined])
      simp at this
    obtain ⟨b, t, ht⟩ := exists_cons_of_ne_nil hne
    have hb := head_dropWhile_not (· != 0x3d) hne
    simp only [ht, head_cons, bne_eq_false_iff_eq] at hb
    exact ⟨t, by rw [ht, hb]⟩
  obtain ⟨t, ht⟩ := hdrop
  -- the text itself is the same, only the place of the split may move
  have hjoin : e.split.joined = e.joined := by
    have hparts := takeWhile_append_dropWhile (p := (· != 0x3d)) (l := e.joined)
    show e.joined.takeWhile (· != 0x3d) ++ 0x3d :: (e.joined.dropWhile (· != 0x3d)).tail = e.joined
    rw [ht] at hparts ⊢
    exact hparts
  have hbytes : ∀ d : CacheEntry, entryBytes d.name d.text = d.joined ++ [0] := by
    intro d
    simp [entryBytes, CacheEntry.joined]
  rw [hbytes, hbytes, hjoin]

theorem imageOf_map_split (es : List CacheEntry) : imageOf (es.map (·.split)) = imageOf es := by
  induction es with
  | nil => rfl
  | cons e es ih => simp [ih, entryBytes_split]

/-- **What comes back, for any names**: the entries as they are split again. -/
theorem parseEnv_envData_split_iff {es c : List CacheEntry}
    (hslots : es.length ≤ maxCacheEntry) (hlen : 2 ≤ len) :
    parseEnv maxCacheEntry (envData len es) = ⟨c, false⟩ ↔
      LoadsAs len (es.map (·.split)) c := by
  have hdata : envData len es = envData len (es.map (·.split)) := by
    simp only [envData, imageOf_map_split]
  rw [hdata]
  apply parseEnv_envData_iff
  · intro e he
    obtain ⟨d, -, rfl⟩ := mem_map.mp he
    rfl
  · intro e he
    obtain ⟨d, -, rfl⟩ := mem_map.mp he
    exact d.split_noEq
  · rw [length_map]
    exact hslots
  · exact hlen

end RalinkSdk.Nvram
