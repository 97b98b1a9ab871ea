import RalinkSdk.Mat.MacTable

/-!
# Tables whose entries age

The two tables of the PPPoE translation are hash tables of linked entries like the address tables,
and the loops that update them are written alike, so that the model has them once.  A chain is the
list of its entries, the first one first: nothing else points to an entry.

On its way to the entry that it looks for, an update frees the entries that were not used for a
long time.  Where it frees the first one it goes on behind the new first one, which it does not
look at.

## Source

`common/cmm_mat_pppoe.c`.
-/

namespace RalinkSdk.Mat

open List Function
open BlockAck (rtmpTimeAfter)

variable {ε : Type}

/-! ## Data -/

/-- What a table keeps, and `lastTime`. -/
structure AgingEntry (ε : Type) where
  entry : ε
  lastTime : BitVec 32
  deriving DecidableEq

/-- An index of `uidHash` or `sesHash`. -/
abbrev HashIdx := Fin matMaxHashEntrySupport

/-- `UidMacMappingTable` or `SesMacMappingTable`. -/
structure AgingTable (ε : Type) where
  valid : Bool
  hash : HashIdx → List (AgingEntry ε)

/-- How a table is updated: how long an entry may be unused, which entry is looked for, what is
    written to it, and what is put in where there is none. -/
structure AgingUpdate (ε : Type) where
  ageout : BitVec 32
  isEntry : ε → Bool
  refresh : ε → ε
  new : ε

/-! ## Update -/

/-- The entry has not been used for a long time. -/
def isAged (ageout : BitVec 32) (x : AgingEntry ε) (now : BitVec 32) : Bool :=
  rtmpTimeAfter now (x.lastTime + ageout)

/-- A chain behind the loop of an update, and the entry that it has found. -/
structure Updated (ε : Type) where
  chain : List (AgingEntry ε)
  found : Option (AgingEntry ε)
  freed : List (AgingEntry ε)

/-- `MATDBEntryFree` -/
def Updated.free (r : Updated ε) (x : AgingEntry ε) : Updated ε := { r with freed := x :: r.freed }

/-- The loop of an update, from its `n`-th entry on; `kept` is the part of the chain up to
    `pPrev`. -/
def updateLoop (u : AgingUpdate ε) (now : Nat → BitVec 32) :
    Nat → List (AgingEntry ε) → List (AgingEntry ε) → Updated ε
  | _, kept, [] => ⟨kept, none, []⟩
  | n, kept, x :: rest =>
    if u.isEntry x.entry then
      let hit := { x with entry := u.refresh x.entry, lastTime := now n }
      ⟨kept ++ hit :: rest, some hit, []⟩
    else if isAged u.ageout x (now n) then
      match kept, rest with
      | [], [] => (⟨[], none, []⟩ : Updated ε).free x
      -- `pPrev` is the new first entry
      | [], y :: rest => (updateLoop u now (n + 1) [y] rest).free x
      | kept, rest => (updateLoop u now (n + 1) kept rest).free x
    else updateLoop u now (n + 1) (kept ++ [x]) rest

namespace AgingTable

def setHash (t : AgingTable ε) (k : HashIdx) (l : List (AgingEntry ε)) : AgingTable ε :=
  { t with hash := update t.hash k l }

/-- `UidMacTableUpdate`, `SesMacTableUpdate` on chain `k`: the entry returned, and the entries that
    were freed.  `alloc` says whether `MATDBEntryAlloc` succeeds. -/
def update (t : AgingTable ε) (k : HashIdx) (u : AgingUpdate ε) (now : Readings) (alloc : Bool) :
    AgingTable ε × Option (AgingEntry ε) × List (AgingEntry ε) :=
  if !t.valid then (t, none, [])
  else
    let r := updateLoop u now.walk 0 [] (t.hash k)
    match r.found with
    | some x => (t.setHash k r.chain, some x, r.freed)
    | none =>
      if alloc then
        let x := ⟨u.new, now.insert⟩
        (t.setHash k (x :: r.chain), some x, r.freed)
      else (t.setHash k r.chain, none, r.freed)

/-! ## Lookup -/

/-- The loop of a lookup, which stamps the entry that it finds. -/
def lookUpLoop (isEntry : ε → Bool) (now : BitVec 32) :
    List (AgingEntry ε) → List (AgingEntry ε) × Option ε
  | [] => ([], none)
  | x :: rest =>
    if isEntry x.entry then ({ x with lastTime := now } :: rest, some x.entry)
    else
      let r := lookUpLoop isEntry now rest
      (x :: r.1, r.2)

/-- `UidMacTableLookUp`, `getInMacByOutMacFromSesMacTb` on chain `k`. -/
def lookUp (t : AgingTable ε) (k : HashIdx) (isEntry : ε → Bool) (now : BitVec 32) :
    AgingTable ε × Option ε :=
  if !t.valid then (t, none)
  else
    let r := lookUpLoop isEntry now (t.hash k)
    (t.setHash k r.1, r.2)

end AgingTable

/-- What the init functions leave, on success. -/
def agingTableInit : AgingTable ε := ⟨true, fun _ => []⟩

/-! ## What an update frees -/

/-- What becomes of an entry. -/
inductive Fate where
  | stays
  | freed
  deriving DecidableEq

/-- What becomes of the entries that the loop looks at one by one. -/
def fates (u : AgingUpdate ε) (now : Nat → BitVec 32) :
    Nat → List (AgingEntry ε) → List (AgingEntry ε × Fate)
  | _, [] => []
  | n, x :: rest =>
    if u.isEntry x.entry then (x :: rest).map (·, .stays)
    else (x, if isAged u.ageout x (now n) then .freed else .stays) :: fates u now (n + 1) rest

/-- What becomes of the entries of a chain: behind a first one that is freed, the second one
    stays. -/
def chainFates (u : AgingUpdate ε) (now : Nat → BitVec 32) :
    List (AgingEntry ε) → List (AgingEntry ε × Fate)
  | x :: y :: rest =>
    if !u.isEntry x.entry && isAged u.ageout x (now 0) then
      (x, .freed) :: (y, .stays) :: fates u now 1 rest
    else fates u now 0 (x :: y :: rest)
  | l => fates u now 0 l

/-- The entries that the loop compares with the one that it looks for, and those behind it. -/
def looked (u : AgingUpdate ε) (now : Nat → BitVec 32) :
    List (AgingEntry ε) → List (AgingEntry ε)
  | x :: y :: rest =>
    if !u.isEntry x.entry && isAged u.ageout x (now 0) then x :: rest else x :: y :: rest
  | l => l

/-- What is kept in the entries that stay. -/
def staying (l : List (AgingEntry ε × Fate)) : List ε :=
  (l.filter (·.2 == .stays)).map (·.1.entry)

/-- The entries that are freed. -/
def goners (l : List (AgingEntry ε × Fate)) : List (AgingEntry ε) :=
  (l.filter (·.2 == .freed)).map (·.1)

section

variable {u : AgingUpdate ε} {now : Nat → BitVec 32} {n : Nat} {kept l rest : List (AgingEntry ε)}
  {x : AgingEntry ε} {fs : List (AgingEntry ε × Fate)}

@[simp] theorem staying_cons_stays : staying ((x, .stays) :: fs) = x.entry :: staying fs := rfl

@[simp] theorem goners_cons_stays : goners ((x, .stays) :: fs) = goners fs := rfl

theorem staying_all (l : List (AgingEntry ε)) :
    staying (l.map (·, Fate.stays)) = l.map (·.entry) := by
  induction l with
  | nil => rfl
  | cons x l ih => rw [map_cons, staying_cons_stays, ih, map_cons]

theorem goners_all (l : List (AgingEntry ε)) : goners (l.map (·, Fate.stays)) = [] := by
  induction l with
  | nil => rfl
  | cons x l ih => rw [map_cons, goners_cons_stays, ih]

theorem fates_fst (u : AgingUpdate ε) (now : Nat → BitVec 32) (n : Nat)
    (l : List (AgingEntry ε)) : (fates u now n l).map Prod.fst = l := by
  induction l generalizing n with
  | nil => rfl
  | cons x rest ih =>
    unfold fates
    split
    · rw [map_map]
      exact map_id _
    · rw [map_cons, ih]

theorem chainFates_fst (u : AgingUpdate ε) (now : Nat → BitVec 32) (l : List (AgingEntry ε)) :
    (chainFates u now l).map Prod.fst = l := by
  unfold chainFates
  split
  · split
    · rw [map_cons, map_cons, fates_fst]
    · exact fates_fst u now 0 _
  · exact fates_fst u now 0 _

theorem mem_staying {e : ε} : e ∈ staying fs ↔ ∃ x, (x, Fate.stays) ∈ fs ∧ x.entry = e := by
  simp [staying]

theorem mem_goners : x ∈ goners fs ↔ (x, Fate.freed) ∈ fs := by
  simp [goners]

theorem mem_goners_of_not_staying (h : x ∈ fs.map Prod.fst) (hno : x.entry ∉ staying fs) :
    x ∈ goners fs := by
  obtain ⟨⟨y, f⟩, hy, rfl⟩ := mem_map.mp h
  cases f with
  | stays => exact absurd (mem_staying.mpr ⟨y, hy, rfl⟩) hno
  | freed => exact mem_goners.mpr hy

theorem mem_of_mem_staying {e : ε} (h : e ∈ staying fs) : e ∈ (fs.map Prod.fst).map (·.entry) := by
  obtain ⟨x, hx, rfl⟩ := mem_staying.mp h
  exact mem_map_of_mem (mem_map_of_mem hx)

/-! ## The loop -/

/-- What the loop of an update does, where the entry that it finds is only stamped. -/
structure LoopSpec (r : Updated ε) (before : List (AgingEntry ε))
    (fs : List (AgingEntry ε × Fate)) (u : AgingUpdate ε) (seen : List (AgingEntry ε)) : Prop where
  chain : r.chain.map (·.entry) = before.map (·.entry) ++ staying fs
  freed : r.freed = goners fs
  found : ∀ x, r.found = some x → u.isEntry x.entry = true
  met : r.found.isSome = seen.any fun x => u.isEntry x.entry

theorem LoopSpec.free {r : Updated ε} {seen : List (AgingEntry ε)} (h : LoopSpec r kept fs u seen)
    (hx : u.isEntry x.entry = false) :
    LoopSpec (r.free x) kept ((x, .freed) :: fs) u (x :: seen) where
  chain := h.chain
  freed := congrArg (x :: ·) h.freed
  found := h.found
  met := by rw [any_cons, hx, Bool.false_or]; exact h.met

/-- **The loop** behind the first entry of the chain. -/
theorem updateLoop_rest (hrefresh : ∀ e, u.isEntry e = true → u.refresh e = e) (hkept : kept ≠ []) :
    LoopSpec (updateLoop u now n kept rest) kept (fates u now n rest) u rest := by
  induction rest generalizing n kept with
  | nil => exact ⟨(append_nil _).symm, rfl, fun x hx => (by cases hx), rfl⟩
  | cons x rest ih =>
    unfold updateLoop fates
    cases hx : u.isEntry x.entry with
    | true =>
      rw [if_pos rfl, if_pos rfl]
      have hsame := hrefresh x.entry hx
      refine ⟨?_, (goners_all _).symm, ?_, ?_⟩
      · rw [staying_all, map_append, map_cons, map_cons, hsame]
      · intro y hy
        obtain rfl := Option.some.inj hy
        rw [hsame, hx]
      · rw [any_cons, hx]
        rfl
    | false =>
      rw [if_neg Bool.false_ne_true, if_neg Bool.false_ne_true]
      cases haged : isAged u.ageout x (now n) with
      | true =>
        obtain ⟨y, ys, rfl⟩ := exists_cons_of_ne_nil hkept
        exact (ih hkept).free hx
      | false =>
        rw [if_neg Bool.false_ne_true, if_neg Bool.false_ne_true]
        have hkept' : kept ++ [x] ≠ [] := by simp
        have hrest := @ih (n + 1) (kept ++ [x]) hkept'
        refine ⟨?_, hrest.freed, hrest.found, ?_⟩
        · rw [hrest.chain, staying_cons_stays, map_append, append_assoc]
          rfl
        · rw [hrest.met, any_cons, hx, Bool.false_or]

theorem LoopSpec.first {r : Updated ε} {seen : List (AgingEntry ε)} (h : LoopSpec r [x] fs u seen) :
    LoopSpec r [] ((x, .stays) :: fs) u seen where
  chain := h.chain
  freed := h.freed
  found := h.found
  met := h.met

theorem LoopSpec.pass {r : Updated ε} {seen : List (AgingEntry ε)} (h : LoopSpec r kept fs u seen)
    (hx : u.isEntry x.entry = false) : LoopSpec r kept fs u (x :: seen) where
  chain := h.chain
  freed := h.freed
  found := h.found
  met := by rw [any_cons, hx, Bool.false_or]; exact h.met

theorem updateLoop_found (hrefresh : ∀ e, u.isEntry e = true → u.refresh e = e)
    (hx : u.isEntry x.entry = true) :
    LoopSpec (updateLoop u now 0 [] (x :: rest)) [] (fates u now 0 (x :: rest)) u (x :: rest) := by
  have hsame := hrefresh x.entry hx
  unfold updateLoop fates
  rw [if_pos hx, if_pos hx]
  refine ⟨?_, (goners_all _).symm, ?_, ?_⟩
  · rw [staying_all, hsame]
    rfl
  · intro y hy
    obtain rfl := Option.some.inj hy
    rw [hsame, hx]
  · rw [any_cons, hx]
    rfl

/-- **The loop** over a chain. -/
theorem updateLoop_chain (hrefresh : ∀ e, u.isEntry e = true → u.refresh e = e)
    (l : List (AgingEntry ε)) :
    LoopSpec (updateLoop u now 0 [] l) [] (chainFates u now l) u (looked u now l) := by
  cases l with
  | nil => exact ⟨rfl, rfl, fun x hx => (by cases hx), rfl⟩
  | cons x rest =>
    cases hx : u.isEntry x.entry with
    | true =>
      have hfound : LoopSpec (updateLoop u now 0 [] (x :: rest)) [] (fates u now 0 (x :: rest)) u
          (x :: rest) := updateLoop_found hrefresh hx
      cases rest with
      | nil => exact hfound
      | cons y rest =>
        have hno : ¬ (!u.isEntry x.entry && isAged u.ageout x (now 0)) = true := by simp [hx]
        rw [chainFates, if_neg hno, looked, if_neg hno]
        exact hfound
    | false =>
      cases haged : isAged u.ageout x (now 0) with
      | false =>
        -- the first entry is kept
        have hstep : updateLoop u now 0 [] (x :: rest) = updateLoop u now 1 [x] rest := by
          conv_lhs => unfold updateLoop
          simp [hx, haged]
        have hfates : chainFates u now (x :: rest) = (x, .stays) :: fates u now 1 rest := by
          cases rest with
          | nil => simp [chainFates, fates, hx, haged]
          | cons y rest => simp [chainFates, fates, hx, haged]
        have hlooked : looked u now (x :: rest) = x :: rest := by
          cases rest with
          | nil => rfl
          | cons y rest => simp [looked, hx, haged]
        rw [hstep, hfates, hlooked]
        exact ((updateLoop_rest hrefresh (by simp)).first).pass hx
      | true =>
        cases rest with
        | nil =>
          have hstep : updateLoop u now 0 [] [x] = (⟨[], none, []⟩ : Updated ε).free x := by
            simp [updateLoop, hx, haged]
          have hfates : chainFates u now [x] = [(x, .freed)] := by
            simp [chainFates, fates, hx, haged]
          rw [hstep, hfates]
          have hnil : LoopSpec (⟨[], none, []⟩ : Updated ε) [] [] u [] :=
            ⟨rfl, rfl, fun x hx => (by cases hx), rfl⟩
          exact hnil.free hx
        | cons y rest =>
          -- the second one becomes the first, and is passed over
          have hstep : updateLoop u now 0 [] (x :: y :: rest) =
              (updateLoop u now 1 [y] rest).free x := by
            simp [updateLoop, hx, haged]
          have hfates : chainFates u now (x :: y :: rest) =
              (x, .freed) :: (y, .stays) :: fates u now 1 rest := by
            simp [chainFates, hx, haged]
          have hlooked : looked u now (x :: y :: rest) = x :: rest := by
            simp [looked, hx, haged]
          rw [hstep, hfates, hlooked]
          exact ((updateLoop_rest hrefresh (by simp)).first).free hx

end

/-! ## The functions -/

namespace AgingTable

/-- What a chain keeps. -/
def entries (t : AgingTable ε) (k : HashIdx) : List ε := (t.hash k).map (·.entry)

variable {t : AgingTable ε} {k k' : HashIdx} {u : AgingUpdate ε}

@[simp] theorem hash_setHash (t : AgingTable ε) (k : HashIdx) (l : List (AgingEntry ε)) :
    (t.setHash k l).hash k = l := update_self ..

theorem hash_setHash_of_ne (t : AgingTable ε) (l : List (AgingEntry ε)) (hk : k' ≠ k) :
    (t.setHash k l).hash k' = t.hash k' := update_of_ne hk ..

/-- What an update does, where the entry that it finds is only stamped: it finds one that it has
    looked at, or puts a new one in front of those that stay. -/
structure UpdateSpec (t : AgingTable ε) (k : HashIdx) (u : AgingUpdate ε) (now : Readings)
    (alloc : Bool) (out : AgingTable ε × Option (AgingEntry ε) × List (AgingEntry ε)) : Prop where
  valid : out.1.valid = true
  other : ∀ k', k' ≠ k → out.1.entries k' = t.entries k'
  entries : out.1.entries k =
    (if !((looked u now.walk (t.hash k)).any fun x => u.isEntry x.entry) && alloc then [u.new]
      else []) ++ staying (chainFates u now.walk (t.hash k))
  freed : out.2.2 = goners (chainFates u now.walk (t.hash k))

/-- **An update**. -/
theorem update_spec (hvalid : t.valid = true)
    (hrefresh : ∀ e, u.isEntry e = true → u.refresh e = e) (k : HashIdx) (now : Readings)
    (alloc : Bool) : UpdateSpec t k u now alloc (t.update k u now alloc) := by
  have hloop : LoopSpec (updateLoop u now.walk 0 [] (t.hash k)) []
      (chainFates u now.walk (t.hash k)) u (looked u now.walk (t.hash k)) := updateLoop_chain hrefresh (t.hash k)
  have hmet := hloop.met
  have hchain := hloop.chain
  rw [map_nil, nil_append] at hchain
  have hother : ∀ (l : List (AgingEntry ε)) k', k' ≠ k →
      (t.setHash k l).entries k' = t.entries k' := fun l k' hk => by
    rw [AgingTable.entries, AgingTable.entries, hash_setHash_of_ne t l hk]
  unfold update
  rw [if_neg (by simp [hvalid])]
  dsimp only
  split
  · next x hx =>
    rw [hx, Option.isSome_some] at hmet
    refine ⟨hvalid, hother _, ?_, hloop.freed⟩
    rw [AgingTable.entries, hash_setHash, hchain, ← hmet]
    rfl
  · next hx =>
    rw [hx, Option.isSome_none] at hmet
    split
    · next halloc =>
      refine ⟨hvalid, hother _, ?_, hloop.freed⟩
      rw [AgingTable.entries, hash_setHash, map_cons, hchain, ← hmet, halloc]
      rfl
    · next halloc =>
      refine ⟨hvalid, hother _, ?_, hloop.freed⟩
      rw [AgingTable.entries, hash_setHash, hchain, Bool.eq_false_iff.mpr halloc, Bool.and_false]
      rfl

theorem lookUpLoop_spec (isEntry : ε → Bool) (now : BitVec 32) (l : List (AgingEntry ε)) :
    (lookUpLoop isEntry now l).1.map (·.entry) = l.map (·.entry) ∧
      (lookUpLoop isEntry now l).2 = (l.map (·.entry)).find? isEntry := by
  induction l with
  | nil => exact ⟨rfl, rfl⟩
  | cons x rest ih =>
    unfold lookUpLoop
    rw [map_cons, find?_cons]
    cases hx : isEntry x.entry with
    | true => exact ⟨rfl, rfl⟩
    | false => exact ⟨congrArg (x.entry :: ·) ih.1, ih.2⟩

/-- **A lookup** returns the first entry of the chain that it is for. -/
theorem lookUp_spec (hvalid : t.valid = true) (k : HashIdx) (isEntry : ε → Bool) (now : BitVec 32) :
    (t.lookUp k isEntry now).1.valid = true ∧
      (∀ k', (t.lookUp k isEntry now).1.entries k' = t.entries k') ∧
      (t.lookUp k isEntry now).2 = (t.entries k).find? isEntry := by
  obtain ⟨hsame, hfound⟩ := lookUpLoop_spec isEntry now (t.hash k)
  unfold lookUp
  rw [if_neg (by simp [hvalid])]
  refine ⟨hvalid, fun k' => ?_, hfound⟩
  by_cases hk : k' = k
  · rw [hk, entries, hash_setHash, hsame, entries]
  · rw [entries, hash_setHash_of_ne t _ hk, entries]

end AgingTable

end RalinkSdk.Mat
