import RalinkSdk.BlockAck.Accounting
import RalinkSdk.BlockAck.SessionInv

/-!
# The pool of reordering blocks

`ba_reordering_resource_init` puts all blocks into the free list.  From then on a
block is in the free list or in the list of one session, unless
`ba_enqueue_reordering_packet` takes one for an EAPOL frame and drops it.
-/

namespace RalinkSdk.BlockAck

open Lib List Function

/-! ## Initialisation -/

/-- `ba_reordering_resource_init` with `num` blocks: each block is put in front of the
    free list. -/
def baReorderingResourceInit (num : Nat) : ReorderingList Nat :=
  (range num).foldl baEnqueue ⟨[], 0⟩

theorem baReorderingResourceInit_eq (num : Nat) :
    baReorderingResourceInit num = ⟨(range num).reverse, num⟩ := by
  unfold baReorderingResourceInit
  induction num with
  | zero => rfl
  | succ num ih =>
    rw [range_succ, foldl_append, ih]
    simp [baEnqueue]

/-! ## All blocks in reach -/

/-- The blocks a slot of the recipient table holds. -/
def BaRecEntry.blocks (e : BaRecEntry) : List Nat := e.list.next.map (·.blk)

/-- The blocks in the free list and in the lists of all slots. -/
def Adapter.blocks (a : Adapter) : List Nat :=
  a.freelist.next ++ (range maxLenOfBaRecTable).flatMap fun i => (a.baRecEntry i).blocks

/-- All lists count their entries. -/
structure Adapter.Counted (a : Adapter) : Prop where
  free : a.freelist.qlen = a.freelist.next.length
  lists : ∀ i, (a.baRecEntry i).list.qlen = (a.baRecEntry i).list.next.length

/-- From `a` to `a'` the blocks `lost` went out of reach, and no others. -/
structure Keeps (a a' : Adapter) (lost : List Nat) : Prop where
  counted : a'.Counted
  blocks : (a'.blocks ++ lost).Perm a.blocks

section

variable {a a' a'' : Adapter} {lost lost' : List Nat}

theorem Keeps.refl (h : a.Counted) : Keeps a a [] :=
  ⟨h, by rw [append_nil]⟩

theorem Keeps.trans (h : Keeps a a' lost) (h' : Keeps a' a'' lost') :
    Keeps a a'' (lost' ++ lost) where
  counted := h'.counted
  blocks := by
    rw [← append_assoc]
    exact (h'.blocks.append_right lost).trans h.blocks

theorem Keeps.of_lists (h : a.Counted) (hfree : a'.freelist = a.freelist)
    (hlist : ∀ i, (a'.baRecEntry i).list = (a.baRecEntry i).list) : Keeps a a' [] where
  counted := ⟨by rw [hfree]; exact h.free, fun i => by rw [hlist i]; exact h.lists i⟩
  blocks := by
    have hblocks : ∀ i, (a'.baRecEntry i).blocks = (a.baRecEntry i).blocks := by
      intro i
      rw [BaRecEntry.blocks, BaRecEntry.blocks, hlist i]
    simp only [Adapter.blocks, hfree, hblocks, append_nil]
    exact List.Perm.refl _

theorem Keeps.setRec (h : a.Counted) (i : Nat) {e : BaRecEntry}
    (he : e.list = (a.baRecEntry i).list) : Keeps a (a.setRec i e) [] := by
  have hfree : (a.setRec i e).freelist = a.freelist := rfl
  apply Keeps.of_lists h hfree
  intro j
  change (update a.baRecEntry i e j).list = _
  by_cases hj : j = i
  · rw [hj, update_self, he]
  · rw [update_of_ne hj]

theorem blocks_split (slots : Nat → BaRecEntry) {i : Nat} (hi : i < maxLenOfBaRecTable) :
    ((range maxLenOfBaRecTable).flatMap fun j => (slots j).blocks).Perm ((slots i).blocks ++
        ((range maxLenOfBaRecTable).erase i).flatMap fun j => (slots j).blocks) := by
  have hperm := perm_cons_erase (mem_range.mpr hi)
  exact (hperm.flatMap_right _).trans (by rw [flatMap_cons])

/-- **One slot**: what a reordering function loses on one slot is all that is lost. -/
theorem onRec_keeps (h : a.Counted) {i : Nat} (hi : i < maxLenOfBaRecTable) {f : Rx → Rx}
    {taken : List RxBlk} (hf : Accounts (a.rx i) (f (a.rx i)) taken lost) :
    Keeps a (a.onRec i f) lost where
  counted := by
    refine ⟨hf.counted.pool, fun j => ?_⟩
    change (update a.baRecEntry i (f (a.rx i)).entry j).list.qlen =
      (update a.baRecEntry i (f (a.rx i)).entry j).list.next.length
    by_cases hj : j = i
    · rw [hj, update_self]
      exact hf.counted.list
    · rw [update_of_ne hj]
      exact h.lists j
  blocks := by
    -- the slots other than `i` are the same before and after
    have hothers : (((range maxLenOfBaRecTable).erase i).flatMap fun j =>
        ((a.onRec i f).baRecEntry j).blocks) =
        ((range maxLenOfBaRecTable).erase i).flatMap fun j => (a.baRecEntry j).blocks := by
      apply flatMap_congr
      intro j hj
      have hne := (nodup_range.mem_erase_iff.mp hj).1
      change (update a.baRecEntry i (f (a.rx i)).entry j).blocks = _
      rw [update_of_ne hne]
    have hslot : ((a.onRec i f).baRecEntry i) = (f (a.rx i)).entry :=
      update_self ..
    generalize hrest : (((range maxLenOfBaRecTable).erase i).flatMap fun j =>
      (a.baRecEntry j).blocks) = rest at hothers
    have hafter := (blocks_split (a.onRec i f).baRecEntry hi).append_left (f (a.rx i)).freelist.next
    have hbefore := (blocks_split a.baRecEntry hi).append_left a.freelist.next
    rw [hothers, hslot, ← append_assoc] at hafter
    rw [hrest, ← append_assoc] at hbefore
    calc List.Perm ((a.onRec i f).blocks ++ lost)
          (((f (a.rx i)).freelist.next ++ (f (a.rx i)).entry.blocks ++ rest) ++ lost) :=
            hafter.append_right lost
      List.Perm _ (((f (a.rx i)).freelist.next ++ (f (a.rx i)).entry.blocks ++ lost) ++ rest) := by
            rw [append_assoc, append_assoc _ lost]
            exact perm_append_comm.append_left _
      List.Perm _ ((a.freelist.next ++ (a.baRecEntry i).blocks) ++ rest) :=
            hf.blocks.append_right rest
      List.Perm _ a.blocks := hbefore.symm

end

/-! ## One event -/

/-- An event that loses a block: an EAPOL frame of a session leaves a gap while there
    is a free block, or while moving the window frees one. -/
def Adapter.leaks (a : Adapter) : AdapterEvent → Bool
  | .arrival _ wcid tid p _ =>
    !p.oversize && decide (wcid < maxLenOfMacTable) &&
      (a.macTab wcid).baRecWcidArray tid != 0 &&
      (a.rx ((a.macTab wcid).baRecWcidArray tid)).leaks p
  | _ => false

section

variable {a : Adapter}

theorem Adapter.Counted.rx (h : a.Counted) (i : Nat) : (a.rx i).Counted := ⟨h.lists i, h.free⟩

theorem free_rec_keeps (h : a.Counted) (idx : Nat) : Keeps a (baTableFreeRecEntry a idx) [] := by
  unfold baTableFreeRecEntry
  split
  · exact .refl h
  dsimp only
  split
  · have hset : Keeps a (a.setRec idx { a.baRecEntry idx with recBaStatus := .none }) [] :=
      Keeps.setRec h idx rfl
    exact ⟨⟨hset.counted.free, hset.counted.lists⟩, hset.blocks⟩
  · exact .refl h

theorem Keeps.then_free {a' : Adapter} {lost : List Nat} {idx : Nat} (h : Keeps a a' lost) :
    Keeps a (baTableFreeRecEntry a' idx) lost :=
  h.trans (free_rec_keeps h.counted idx)

theorem free_ori_lists (a : Adapter) (idx : Nat) :
    (baTableFreeOriEntry a idx).freelist = a.freelist ∧
      (baTableFreeOriEntry a idx).baRecEntry = a.baRecEntry := by
  unfold baTableFreeOriEntry
  split
  · exact ⟨rfl, rfl⟩
  dsimp only
  split
  · split <;> exact ⟨rfl, rfl⟩
  · exact ⟨rfl, rfl⟩

theorem Keeps.of_same {a' : Adapter} (h : a.Counted)
    (hsame : a'.freelist = a.freelist ∧ a'.baRecEntry = a.baRecEntry) : Keeps a a' [] :=
  Keeps.of_lists h hsame.1 fun i => by rw [hsame.2]

theorem oriSetUp_lists (a : Adapter) (wcid tid timeOut : Nat) (isForced : Bool) :
    (baOriSessionSetUp a wcid tid timeOut isForced).freelist = a.freelist ∧
      (baOriSessionSetUp a wcid tid timeOut isForced).baRecEntry = a.baRecEntry := by
  have halloc : ∀ idx, (baTableAllocOriEntry a idx).2.2.freelist = a.freelist ∧
      (baTableAllocOriEntry a idx).2.2.baRecEntry = a.baRecEntry := by
    intro idx
    unfold baTableAllocOriEntry
    dsimp only
    split
    · exact ⟨rfl, rfl⟩
    · split <;> exact ⟨rfl, rfl⟩
  -- the three early returns change nothing
  unfold baOriSessionSetUp
  split
  · exact ⟨rfl, rfl⟩
  split
  · exact ⟨rfl, rfl⟩
  split
  · exact ⟨rfl, rfl⟩
  dsimp only
  by_cases hidx : (a.macTab wcid).baOriWcidArray tid = 0
  · rw [if_pos hidx]
    have hstate := halloc ((a.macTab wcid).baOriWcidArray tid)
    split
    · rename_i heq
      rw [heq] at hstate
      exact hstate
    · rename_i heq
      rw [heq] at hstate
      split
      · exact hstate
      · exact hstate
  · rw [if_neg hidx]
    dsimp only
    split <;> exact ⟨rfl, rfl⟩

theorem oriAdd_lists (a : Adapter) (wcid tid bufSize timeOut : Nat) :
    (baOriSessionAdd a wcid tid bufSize timeOut).freelist = a.freelist ∧
      (baOriSessionAdd a wcid tid bufSize timeOut).baRecEntry = a.baRecEntry := by
  unfold baOriSessionAdd
  dsimp only
  split <;> exact ⟨rfl, rfl⟩

theorem oriTearDown_lists (a : Adapter) (wcid tid : Nat) (bPassive allocOk : Bool) :
    (baOriSessionTearDown a wcid tid bPassive allocOk).freelist = a.freelist ∧
      (baOriSessionTearDown a wcid tid bPassive allocOk).baRecEntry = a.baRecEntry := by
  unfold baOriSessionTearDown
  split
  · exact ⟨rfl, rfl⟩
  dsimp only
  split
  · exact ⟨rfl, rfl⟩
  split
  · exact ⟨rfl, rfl⟩
  · exact free_ori_lists a _

theorem oriTimeout_lists (a : Adapter) (i : Nat) (off scanning : Bool) :
    (baOriSessionSetupTimeout a i off scanning).freelist = a.freelist ∧
      (baOriSessionSetupTimeout a i off scanning).baRecEntry = a.baRecEntry := by
  unfold baOriSessionSetupTimeout
  split
  · exact ⟨rfl, rfl⟩
  dsimp only
  split
  · split <;> exact ⟨rfl, rfl⟩
  · exact free_ori_lists a _

theorem Adapter.Consistent.recIdx_lt (h : a.Consistent) {wcid tid : Nat}
    (hkey : validKey (wcid, tid)) : (a.macTab wcid).baRecWcidArray tid < maxLenOfBaRecTable := by
  by_cases hidx : (a.macTab wcid).baRecWcidArray tid = 0
  · rw [hidx]
    decide
  · exact (h.rec_ok.used_of_index hkey hidx).1

theorem refresh_keeps (hc : a.Counted) {i : Nat} (hi : i < maxLenOfBaRecTable) :
    Keeps a (a.onRec i baRefreshReorderingMpdus) [] :=
  onRec_keeps hc hi (refresh_accounts (hc.rx i))

variable (h : a.Consistent) (hc : a.Counted)

include h hc

theorem recAdd_keeps {wcid tid : Nat} (hkey : validKey (wcid, tid)) (bufSize : Nat) :
    Keeps a (baRecSessionAdd a wcid tid bufSize).2 [] := by
  -- filling in a slot leaves its list alone
  have hfill : ∀ (b : Adapter) (i idx : Nat), b.Counted →
      Keeps b ((b.setRec i (recEntryFill (b.baRecEntry i) (b.macTab wcid).aid tid
          (recBaWinSize bufSize b.rxBaWinLimit))).setRxBitmap wcid
        (((b.setRec i (recEntryFill (b.baRecEntry i) (b.macTab wcid).aid tid
          (recBaWinSize bufSize b.rxBaWinLimit))).macTab wcid).rxBaBitmap ||| tidBit tid)
        |>.setRecIdx wcid tid idx) [] := by
    intro b i idx hb
    have hset : Keeps b (b.setRec i (recEntryFill (b.baRecEntry i) (b.macTab wcid).aid tid
      (recBaWinSize bufSize b.rxBaWinLimit))) [] := Keeps.setRec hb i rfl
    exact ⟨⟨hset.counted.free, hset.counted.lists⟩, hset.blocks⟩
  unfold baRecSessionAdd
  dsimp only
  by_cases hidx : (a.macTab wcid).baRecWcidArray tid = 0
  · rw [if_pos hidx]
    rcases h.alloc_rec ((a.macTab wcid).baRecWcidArray tid) with
      halloc | ⟨i, -, -, -, halloc⟩
    · rw [halloc]
      exact .refl hc
    · rw [halloc]
      have hset : Keeps a (a.setRec i { a.baRecEntry i with recBaStatus := .used }) [] :=
        Keeps.setRec hc i rfl
      have hmark : Keeps a ((a.setRec i { a.baRecEntry i with recBaStatus := .used }).setNumRec
          (a.numAsRecipient + 1)) [] :=
        ⟨⟨hset.counted.free, hset.counted.lists⟩, hset.blocks⟩
      exact hmark.trans (hfill _ i i hmark.counted)
  · rw [if_neg hidx]
    have hflush := refresh_keeps hc (h.recIdx_lt hkey)
    exact hflush.trans (hfill _ _ _ hflush.counted)

theorem recTearDown_keeps (wcid : Nat) {tid : Nat} (htid : tid < numOfTid)
    (bPassive allocOk : Bool) : Keeps a (baRecSessionTearDown a wcid tid bPassive allocOk) [] := by
  unfold baRecSessionTearDown
  split
  · exact .refl hc
  rename_i hwcid
  dsimp only
  split
  · exact .refl hc
  split
  · split
    · exact .refl hc
    · have hflush := refresh_keeps hc (h.recIdx_lt ⟨Nat.lt_of_not_le hwcid, htid⟩)
      -- the session is reset and its index and bit go, which leaves the lists alone
      have hreset : ∀ (b : Adapter) (i : Nat) (m : BitVec 16), b.Counted →
          Keeps b (((b.setRec i
            { b.baRecEntry i with lastIndSeq := resetRcvSeq, baWinSize := 0 }).setRxBitmap
              wcid m).setRecIdx wcid tid 0) [] := by
        intro b i m hb
        have hset : Keeps b (b.setRec i
          { b.baRecEntry i with lastIndSeq := resetRcvSeq, baWinSize := 0 }) [] :=
          Keeps.setRec hb i rfl
        exact ⟨⟨hset.counted.free, hset.counted.lists⟩, hset.blocks⟩
      apply Keeps.then_free
      exact hflush.trans (hreset _ _ _ hflush.counted)
  · exact free_rec_keeps hc _

theorem tearDownAll_keeps (wcid : Nat) (allocOk : Bool) :
    Keeps a (baSessionTearDownAll a wcid allocOk) [] := by
  unfold baSessionTearDownAll
  have hall : ∀ tids : List Nat, (∀ tid ∈ tids, tid < numOfTid) → ∀ a : Adapter, a.Consistent →
      a.Counted → Keeps a (tids.foldl (fun a tid => baRecSessionTearDown
        (baOriSessionTearDown a wcid tid false allocOk) wcid tid false allocOk) a) [] := by
    intro tids
    induction tids with
    | nil => exact fun _ a _ hc => .refl hc
    | cons tid tids ih =>
      intro hlt a h hc
      obtain ⟨htid, hrest⟩ := forall_mem_cons.mp hlt
      have hori := h.oriTearDown wcid tid false allocOk
      have hk₁ := Keeps.of_same hc (oriTearDown_lists a wcid tid false allocOk)
      have hk₂ := hk₁.trans (recTearDown_keeps hori hk₁.counted wcid htid false allocOk)
      exact hk₂.trans (ih hrest _ (hori.recTearDown wcid htid false allocOk) hk₂.counted)
  exact hall _ (fun tid ht => mem_range.mp ht) a h hc

theorem arrival_keeps (now : BitVec 32) (wcid : Nat) {tid : Nat} (p : RxBlk)
    (htid : tid < numOfTid) : ∃ lost, Keeps a (a.indicateArrival now wcid tid p) lost ∧
      (lost = [] ↔ a.leaks (.arrival now wcid tid p htid) = false) := by
  -- a frame without a session only goes to the logs
  have hlog : ∀ up released : List RxBlk, Keeps a { a with up := up, released := released } [] :=
    fun up released => ⟨⟨hc.free, hc.lists⟩, by rw [append_nil]; exact List.Perm.refl _⟩
  unfold Adapter.indicateArrival
  by_cases hsize : p.oversize = true
  · rw [if_pos hsize]
    exact ⟨[], hlog _ _, by simp [Adapter.leaks, hsize]⟩
  rw [if_neg hsize]
  by_cases hw : wcid < maxLenOfMacTable
  · rw [if_pos hw]
    dsimp only
    by_cases hidx : (a.macTab wcid).baRecWcidArray tid = 0
    · rw [if_pos hidx]
      exact ⟨[], hlog _ _, by simp [Adapter.leaks, hidx]⟩
    · rw [if_neg hidx]
      obtain ⟨s, hs⟩ : ∃ s, a.rx ((a.macTab wcid).baRecWcidArray tid) = s := ⟨_, rfl⟩
      have hset : (s.setTimer now).Counted := by
        rw [← hs]
        exact ⟨hc.lists _, hc.free⟩
      obtain ⟨lost, hacc, hlost⟩ := indicateArrival_accounts hset now p
      have hacc' : Accounts s (indicateArrival (s.setTimer now) now p) [p] lost :=
        ⟨hacc.counted, hacc.frames, hacc.blocks⟩
      rw [← hs] at hacc'
      refine ⟨lost, onRec_keeps hc (h.recIdx_lt ⟨hw, htid⟩)
        (f := fun s => indicateArrival (s.setTimer now) now p) hacc', ?_⟩
      have hleaks : (s.setTimer now).leaks p = s.leaks p := rfl
      rw [hlost, hleaks, ← hs]
      simp [Adapter.leaks, hsize, hw, hidx]
  · rw [if_neg hw]
    exact ⟨[], hlog _ _, by simp [Adapter.leaks, hw]⟩

/-- **Step**: every event keeps all blocks in reach, except for the one that an event
    which `leaks` loses. -/
theorem Adapter.step_keeps (e : AdapterEvent) :
    ∃ lost, Keeps a (a.step e) lost ∧ (lost = [] ↔ a.leaks e = false) := by
  -- only an arrival can lose a block
  cases e with
  | arrival now wcid tid p htid => exact arrival_keeps h hc now wcid p htid
  | oriSetUp wcid tid timeOut isForced _ =>
    exact ⟨[], .of_same hc (oriSetUp_lists a wcid tid timeOut isForced), by simp [Adapter.leaks]⟩
  | oriAdd wcid tid bufSize timeOut _ =>
    exact ⟨[], .of_same hc (oriAdd_lists a wcid tid bufSize timeOut), by simp [Adapter.leaks]⟩
  | oriTearDown wcid tid bPassive allocOk _ =>
    exact ⟨[], .of_same hc (oriTearDown_lists a wcid tid bPassive allocOk), by simp [Adapter.leaks]⟩
  | oriTimeout i off scanning _ =>
    exact ⟨[], .of_same hc (oriTimeout_lists a i off scanning), by simp [Adapter.leaks]⟩
  | recAdd wcid tid bufSize hkey =>
    exact ⟨[], recAdd_keeps h hc hkey bufSize, by simp [Adapter.leaks]⟩
  | recTearDown wcid tid bPassive allocOk htid =>
    exact ⟨[], recTearDown_keeps h hc wcid htid bPassive allocOk, by simp [Adapter.leaks]⟩
  | tearDownAll wcid allocOk =>
    exact ⟨[], tearDownAll_keeps h hc wcid allocOk, by simp [Adapter.leaks]⟩
  | recFlush i now hi =>
    exact ⟨[], onRec_keeps hc hi (f := fun s => baFlushReorderingTimeoutMpdus s now)
      (baFlushReorderingTimeoutMpdus_accounts (hc.rx i) now), by simp [Adapter.leaks]⟩
  | recIdle i now hi =>
    exact ⟨[], onRec_keeps hc hi (f := fun s => baRecSessionIdleTimeout s now)
      (baRecSessionIdleTimeout_accounts (hc.rx i) now), by simp [Adapter.leaks]⟩
  | bar wcid tid startSeq _ =>
    refine ⟨[], ?_, by simp [Adapter.leaks]⟩
    change Keeps a (a.cntlEnqueueForRecv wcid tid startSeq) []
    unfold Adapter.cntlEnqueueForRecv
    split
    · rename_i hkey
      exact onRec_keeps hc (h.recIdx_lt hkey) (f := fun s => BlockAck.cntlEnqueueForRecv s startSeq)
        (cntlEnqueueForRecv_accounts (hc.rx _) startSeq)
    · exact .refl hc

end

/-! ## Runs -/

theorem run_keeps {a : Adapter} (h : a.Consistent) (hc : a.Counted) (es : List AdapterEvent) :
    ∃ lost, ((runEvents Adapter.step a es).blocks ++ lost).Perm a.blocks ∧
      (lost = [] ↔ Along Adapter.step (fun a e => a.leaks e = false) a es) := by
  induction es generalizing a with
  | nil => exact ⟨[], by rw [append_nil]; exact List.Perm.refl _, by simp⟩
  | cons e es ih =>
    obtain ⟨lost, hkeep, hlost⟩ := Adapter.step_keeps h hc e
    obtain ⟨lost', hkeep', hlost'⟩ := ih (h.step e) hkeep.counted
    refine ⟨lost' ++ lost, ?_, ?_⟩
    · rw [← append_assoc]
      exact (hkeep'.append_right lost).trans hkeep.blocks
    · rw [append_eq_nil_iff, hlost, hlost', along_cons]
      exact and_comm

/-- **The pool**: of an adapter without sessions and with `num` blocks, every run ends
    with each of these blocks in exactly one list, once, if and only if no event of the
    run leaks. -/
theorem block_pool_run (a : Adapter) (num : Nat) (hidle : a.Idle)
    (haid : ∀ wcid, wcid < maxLenOfMacTable → (a.macTab wcid).aid = wcid)
    (hinit : a.freelist = baReorderingResourceInit num)
    (hempty : ∀ i, (a.baRecEntry i).list = ⟨[], 0⟩) (es : List AdapterEvent) :
    (runEvents Adapter.step a es).blocks.Perm (List.range num) ↔
      Along Adapter.step (fun a e => a.leaks e = false) a es := by
  rw [baReorderingResourceInit_eq] at hinit
  have hc : a.Counted :=
    ⟨by rw [hinit]; simp, fun i => by rw [hempty i]; rfl⟩
  -- at the start all blocks are free
  have hall : a.blocks.Perm (List.range num) := by
    have hnone : ((List.range maxLenOfBaRecTable).flatMap fun i => (a.baRecEntry i).blocks) = [] := by
      apply List.flatMap_eq_nil_iff.mpr
      intro i _
      rw [BaRecEntry.blocks, hempty i]
      rfl
    rw [Adapter.blocks, hnone, List.append_nil, hinit]
    exact List.reverse_perm _
  obtain ⟨lost, hkeep, hlost⟩ := run_keeps (hidle.consistent haid) hc es
  rw [← hlost]
  constructor
  · -- nothing is lost if nothing is missing
    intro hperm
    have hlen := hkeep.length_eq
    rw [List.length_append, hperm.length_eq, hall.length_eq] at hlen
    exact List.length_eq_zero_iff.mp (by omega)
  · intro hnil
    rw [hnil, List.append_nil] at hkeep
    exact hkeep.trans hall

/-! ### Two runs -/

def twoBlockAdapter : Adapter := { newAdapter with freelist := baReorderingResourceInit 2 }

theorem one_lt_maxLenOfBaRecTable : 1 < maxLenOfBaRecTable := by decide

theorem zero_lt_numOfTid : 0 < numOfTid := by decide

theorem station_one_tid_zero : 1 < maxLenOfMacTable ∧ 0 < numOfTid := by decide

/-- A frame of station 1 for TID 0 at tick 0, of 100 bytes. -/
def frameOfOne (sequence : Fin seqSpace) (eap : Bool) : List AdapterEvent :=
  [.recFlush 1 0#32 one_lt_maxLenOfBaRecTable,
    .arrival 0#32 1 0 ⟨sequence, le_maxSeq_of_fin sequence, eap, false, 100, 0⟩ zero_lt_numOfTid]

/-- 10 starts the session; EAPOL frame 12 leaves a gap and takes a block with it. -/
def eapolGapRun : List AdapterEvent :=
  .recAdd 1 0 8 station_one_tid_zero :: frameOfOne 10 false ++ frameOfOne 12 true

theorem eapol_gap_loses_block : ¬ ∀ (a : Adapter) (num : Nat), a.Idle →
      (∀ wcid, wcid < maxLenOfMacTable → (a.macTab wcid).aid = wcid) →
      a.freelist = baReorderingResourceInit num → (∀ i, (a.baRecEntry i).list = ⟨[], 0⟩) →
      ∀ es : List AdapterEvent,
        (runEvents Adapter.step a es).blocks.Perm (List.range num) := by
  intro hall
  have hperm := hall twoBlockAdapter 2
    ⟨rfl, rfl, fun _ => rfl, fun _ => rfl, fun _ _ => rfl, fun _ _ => rfl⟩ (fun _ _ => rfl) rfl
    (fun _ => rfl) eapolGapRun
  have hblocks : (runEvents Adapter.step twoBlockAdapter eapolGapRun).blocks = [0] := by
    decide +kernel
  rw [hblocks] at hperm
  exact absurd hperm.length_eq (by decide)

/-- An EAPOL frame in order, a data frame that waits and one that is in order again. -/
def eapolInOrderRun : List AdapterEvent :=
  .recAdd 1 0 8 station_one_tid_zero :: frameOfOne 10 false ++ frameOfOne 11 true ++
    frameOfOne 13 false ++ frameOfOne 12 false

theorem block_pool_eapol_in_order :
    (runEvents Adapter.step twoBlockAdapter eapolInOrderRun).blocks.Perm (List.range 2) :=
  (block_pool_run twoBlockAdapter 2
    ⟨rfl, rfl, fun _ => rfl, fun _ => rfl, fun _ _ => rfl, fun _ _ => rfl⟩ (fun _ _ => rfl) rfl
    (fun _ => rfl) eapolInOrderRun).mpr (by decide +kernel)

end RalinkSdk.BlockAck
