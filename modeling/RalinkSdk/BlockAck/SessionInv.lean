import RalinkSdk.Lib.Run
import RalinkSdk.Lib.SlotIndex
import RalinkSdk.BlockAck.Session

/-!
# The session tables stay consistent

Each of the two tables of the adapter, with the station arrays and the counter, is a
slot table in the sense of `RalinkSdk.Lib.SlotIndex`, keyed by station and TID.  A
function of the session code claims a slot of one table, releases one, or leaves both
tables as they are.
-/

namespace RalinkSdk.BlockAck

open Lib List Function

/-! ## The two tables as slot tables -/

/-- A session is known by its station and its TID. -/
abbrev SessionKey := Nat × Nat

/-- A station of the MAC table and one of its TIDs. -/
def validKey (k : SessionKey) : Prop := k.1 < maxLenOfMacTable ∧ k.2 < numOfTid

def recKey (e : BaRecEntry) : Option SessionKey :=
  if e.recBaStatus = .none then none else some (e.wcid, e.tid)

def oriKey (e : BaOriEntry) : Option SessionKey :=
  if e.oriBaStatus = .none then none else some (e.wcid, e.tid)

/-- `BARecEntry`, `BARecWcidArray` and `numAsRecipient` -/
def Adapter.recTable (a : Adapter) : SlotTable SessionKey where
  used i := recKey (a.baRecEntry i)
  index k := (a.macTab k.1).baRecWcidArray k.2
  count := a.numAsRecipient

/-- `BAOriEntry`, `BAOriWcidArray` and `numAsOriginator` -/
def Adapter.oriTable (a : Adapter) : SlotTable SessionKey where
  used i := oriKey (a.baOriEntry i)
  index k := (a.macTab k.1).baOriWcidArray k.2
  count := a.numAsOriginator

def Adapter.aids (a : Adapter) (wcid : Nat) : Nat := (a.macTab wcid).aid

/-- Both tables agree with the station arrays and the counters, and the `Aid` of a
    station is its place in the MAC table. -/
structure Adapter.Consistent (a : Adapter) : Prop where
  rec_ok : a.recTable.Ok maxLenOfBaRecTable validKey
  ori_ok : a.oriTable.Ok maxLenOfBaOriTable validKey
  aid : ∀ wcid, wcid < maxLenOfMacTable → a.aids wcid = wcid

theorem Adapter.Consistent.of_eq {a a' : Adapter} (h : a.Consistent)
    (hrec : a'.recTable = a.recTable) (hori : a'.oriTable = a.oriTable)
    (haid : a'.aids = a.aids) : a'.Consistent :=
  ⟨hrec ▸ h.rec_ok, hori ▸ h.ori_ok, haid ▸ h.aid⟩

/-! ## What the updates leave alone -/

section

variable (a : Adapter) (i wcid tid idx : Nat)

theorem macTab_update {β : Type} (f : MacTableEntry → β) {e : MacTableEntry}
    (h : f e = f (a.macTab wcid)) (w : Nat) :
    f (update a.macTab wcid e w) = f (a.macTab w) := by
  by_cases hw : w = wcid
  · rw [hw, update_self, h]
  · rw [update_of_ne hw]

@[simp] theorem recTable_setOri (e : BaOriEntry) : (a.setOri i e).recTable = a.recTable := rfl

@[simp] theorem oriTable_setRec (e : BaRecEntry) : (a.setRec i e).oriTable = a.oriTable := rfl

@[simp] theorem oriTable_onRec (f : Rx → Rx) : (a.onRec i f).oriTable = a.oriTable := rfl

@[simp] theorem recTable_setNumOri : (a.setNumOri i).recTable = a.recTable := rfl

@[simp] theorem oriTable_setNumRec : (a.setNumRec i).oriTable = a.oriTable := rfl

@[simp] theorem recTable_setNumDone : (a.setNumDone i).recTable = a.recTable := rfl

@[simp] theorem oriTable_setNumDone : (a.setNumDone i).oriTable = a.oriTable := rfl

@[simp] theorem aids_setNumRec : (a.setNumRec i).aids = a.aids := rfl

@[simp] theorem aids_setNumOri : (a.setNumOri i).aids = a.aids := rfl

@[simp] theorem aids_setNumDone : (a.setNumDone i).aids = a.aids := rfl

@[simp] theorem aids_setOri (e : BaOriEntry) : (a.setOri i e).aids = a.aids := rfl

@[simp] theorem aids_setRec (e : BaRecEntry) : (a.setRec i e).aids = a.aids := rfl

@[simp] theorem aids_onRec (f : Rx → Rx) : (a.onRec i f).aids = a.aids := rfl

theorem recTable_setMac {e : MacTableEntry}
    (h : e.baRecWcidArray = (a.macTab wcid).baRecWcidArray) :
    (a.setMac wcid e).recTable = a.recTable := by
  simp only [Adapter.recTable, Adapter.setMac, macTab_update a wcid (·.baRecWcidArray) h]

theorem oriTable_setMac {e : MacTableEntry}
    (h : e.baOriWcidArray = (a.macTab wcid).baOriWcidArray) :
    (a.setMac wcid e).oriTable = a.oriTable := by
  simp only [Adapter.oriTable, Adapter.setMac, macTab_update a wcid (·.baOriWcidArray) h]

theorem aids_setMac {e : MacTableEntry} (h : e.aid = (a.macTab wcid).aid) :
    (a.setMac wcid e).aids = a.aids :=
  funext fun w => macTab_update a wcid (·.aid) h w

@[simp] theorem recTable_setOriIdx : (a.setOriIdx wcid tid idx).recTable = a.recTable :=
  recTable_setMac a wcid rfl

@[simp] theorem oriTable_setRecIdx : (a.setRecIdx wcid tid idx).oriTable = a.oriTable :=
  oriTable_setMac a wcid rfl

@[simp] theorem recTable_setRxBitmap (b : BitVec 16) :
    (a.setRxBitmap wcid b).recTable = a.recTable :=
  recTable_setMac a wcid rfl

@[simp] theorem oriTable_setRxBitmap (b : BitVec 16) :
    (a.setRxBitmap wcid b).oriTable = a.oriTable :=
  oriTable_setMac a wcid rfl

@[simp] theorem recTable_setTxBitmap (b : BitVec 16) :
    (a.setTxBitmap wcid b).recTable = a.recTable :=
  recTable_setMac a wcid rfl

@[simp] theorem oriTable_setTxBitmap (b : BitVec 16) :
    (a.setTxBitmap wcid b).oriTable = a.oriTable :=
  oriTable_setMac a wcid rfl

@[simp] theorem aids_setRxBitmap (b : BitVec 16) : (a.setRxBitmap wcid b).aids = a.aids :=
  aids_setMac a wcid rfl

@[simp] theorem aids_setTxBitmap (b : BitVec 16) : (a.setTxBitmap wcid b).aids = a.aids :=
  aids_setMac a wcid rfl

@[simp] theorem aids_setOriIdx : (a.setOriIdx wcid tid idx).aids = a.aids := aids_setMac a wcid rfl

@[simp] theorem aids_setRecIdx : (a.setRecIdx wcid tid idx).aids = a.aids := aids_setMac a wcid rfl

theorem recTable_index_setRecIdx (k : SessionKey) : (a.setRecIdx wcid tid idx).recTable.index k =
      if k = (wcid, tid) then idx else a.recTable.index k := by
  obtain ⟨w, t⟩ := k
  simp only [Adapter.recTable, Adapter.setRecIdx, Adapter.setMac, Prod.mk.injEq]
  by_cases hw : w = wcid
  · rw [hw, update_self]
    by_cases ht : t = tid
    · simp [ht]
    · simp [ht]
  · simp [hw]

theorem oriTable_index_setOriIdx (k : SessionKey) : (a.setOriIdx wcid tid idx).oriTable.index k =
      if k = (wcid, tid) then idx else a.oriTable.index k := by
  obtain ⟨w, t⟩ := k
  simp only [Adapter.oriTable, Adapter.setOriIdx, Adapter.setMac, Prod.mk.injEq]
  by_cases hw : w = wcid
  · rw [hw, update_self]
    by_cases ht : t = tid
    · simp [ht]
    · simp [ht]
  · simp [hw]

theorem recTable_used_setRec (e : BaRecEntry) (j : Nat) :
    (a.setRec i e).recTable.used j = if j = i then recKey e else a.recTable.used j := by
  simp only [Adapter.recTable, Adapter.setRec, update_apply]
  split <;> rfl

theorem oriTable_used_setOri (e : BaOriEntry) (j : Nat) :
    (a.setOri i e).oriTable.used j = if j = i then oriKey e else a.oriTable.used j := by
  simp only [Adapter.oriTable, Adapter.setOri, update_apply]
  split <;> rfl

theorem recTable_setRec {e : BaRecEntry} (h : recKey e = recKey (a.baRecEntry i)) :
    (a.setRec i e).recTable = a.recTable := by
  have hused : (a.setRec i e).recTable.used = a.recTable.used := by
    funext j
    rw [recTable_used_setRec]
    split
    · rename_i hj
      rw [h, hj]
      rfl
    · rfl
  simp only [Adapter.recTable] at hused ⊢
  rw [hused]
  rfl

theorem oriTable_setOri {e : BaOriEntry} (h : oriKey e = oriKey (a.baOriEntry i)) :
    (a.setOri i e).oriTable = a.oriTable := by
  have hused : (a.setOri i e).oriTable.used = a.oriTable.used := by
    funext j
    rw [oriTable_used_setOri]
    split
    · rename_i hj
      rw [h, hj]
      rfl
    · rfl
  simp only [Adapter.oriTable] at hused ⊢
  rw [hused]
  rfl

end

/-! ## Reordering does not touch the tables -/

def SameSession (s s' : Rx) : Prop :=
  s'.entry.wcid = s.entry.wcid ∧ s'.entry.tid = s.entry.tid ∧
    s'.entry.recBaStatus = s.entry.recBaStatus

section

variable {s s' s'' : Rx}

theorem SameSession.refl (s : Rx) : SameSession s s := ⟨rfl, rfl, rfl⟩

theorem SameSession.trans (h : SameSession s s') (h' : SameSession s' s'') : SameSession s s'' :=
  ⟨h'.1.trans h.1, h'.2.1.trans h.2.1, h'.2.2.trans h.2.2⟩

theorem indicateWhile_sameSession (test : Nat → ReorderingMpdu → Bool) (turns : Nat) (s : Rx)
    (start last : Nat) : SameSession s (indicateWhile test turns s start last).1 := by
  induction turns generalizing s start last with
  | zero => exact .refl s
  | succ turns ih =>
    rw [indicateWhile]
    split
    · exact .refl s
    · split
      · exact .refl s
      · split
        · exact ⟨rfl, rfl, rfl⟩
        · -- the turn itself changes the list and the logs only
          exact SameSession.trans ⟨rfl, rfl, rfl⟩ (ih _ _ _)

theorem leSeq_sameSession (s : Rx) (seq : Nat) :
    SameSession s (baIndicateReorderingMpdusLeSeq s seq) :=
  indicateWhile_sameSession _ _ _ _ _

theorem continueInOrder_sameSession (s : Rx) : SameSession s (continueInOrder s) := by
  have hloop : SameSession s (baIndicateReorderingMpdusInOrder s s.entry.lastIndSeq).1 :=
    indicateWhile_sameSession _ _ _ _ _
  unfold continueInOrder
  dsimp only
  split
  · exact hloop
  · exact hloop

theorem refreshLoop_sameSession (turns : Nat) (s : Rx) : SameSession s (refreshLoop turns s) := by
  induction turns generalizing s with
  | zero => exact .refl s
  | succ turns ih =>
    rw [refreshLoop]
    split
    · exact ⟨rfl, rfl, rfl⟩
    · exact SameSession.trans ⟨rfl, rfl, rfl⟩ (ih _)

theorem refresh_sameSession (s : Rx) : SameSession s (baRefreshReorderingMpdus s) :=
  refreshLoop_sameSession _ s

theorem flush_sameSession (s : Rx) (now : BitVec 32) :
    SameSession s (baFlushReorderingTimeoutMpdus s now) := by
  unfold baFlushReorderingTimeoutMpdus
  split
  · exact .refl s
  · split
    · exact refresh_sameSession s
    · split
      · exact (leSeq_sameSession s _).trans (continueInOrder_sameSession _)
      · exact .refl s

theorem idle_sameSession (s : Rx) (now : BitVec 32) :
    SameSession s (baRecSessionIdleTimeout s now) := by
  unfold baRecSessionIdleTimeout
  split
  · exact refresh_sameSession s
  · exact .refl s

theorem bar_sameSession (s : Rx) (startSeq : Nat) :
    SameSession s (cntlEnqueueForRecv s startSeq) := by
  unfold cntlEnqueueForRecv
  split
  · exact leSeq_sameSession s startSeq
  · exact .refl s

theorem enqueue_sameSession (s : Rx) (p : RxBlk) :
    SameSession s (baEnqueueReorderingPacket s p) := by
  have halloc : SameSession s (baMpduBlkAlloc s).2 := ⟨rfl, rfl, rfl⟩
  unfold baEnqueueReorderingPacket
  split
  · rename_i blk s' hblk
    have hs' : SameSession s s' := by rw [hblk] at halloc; exact halloc
    split
    · split
      · exact hs'
      · exact hs'
    · exact hs'.trans (leSeq_sameSession s' p.sequence)
  · rename_i s' hblk
    have hs' : SameSession s s' := by rw [hblk] at halloc; exact halloc
    exact hs'.trans (leSeq_sameSession s' p.sequence)

theorem arrival_sameSession (s : Rx) (now : BitVec 32) (p : RxBlk) :
    SameSession s (indicateArrival (s.setTimer now) now p) := by
  have hset : SameSession s (s.setTimer now) := ⟨rfl, rfl, rfl⟩
  unfold indicateArrival
  split
  · exact ⟨rfl, rfl, rfl⟩
  · split
    · exact SameSession.trans ⟨rfl, rfl, rfl⟩ (continueInOrder_sameSession _)
    · split
      · exact ⟨rfl, rfl, rfl⟩
      · split
        · exact ⟨rfl, rfl, rfl⟩
        · split
          · exact hset.trans (enqueue_sameSession _ p)
          · -- the window moves, then the frame goes in, then what follows goes up
            dsimp only
            have hmove : SameSession s (((baIndicateReorderingMpdusLeSeq (s.setTimer now)
                (winStartSeq p.sequence (s.setTimer now).entry.baWinSize)).setLastIndSeq
                (winStartSeq p.sequence (s.setTimer now).entry.baWinSize)).setTimer now) :=
              hset.trans (leSeq_sameSession _ _)
            exact (hmove.trans (enqueue_sameSession _ p)).trans (continueInOrder_sameSession _)

theorem recTable_onRec (a : Adapter) (i : Nat) {f : Rx → Rx}
    (h : SameSession (a.rx i) (f (a.rx i))) : (a.onRec i f).recTable = a.recTable := by
  have hkey : recKey (f (a.rx i)).entry = recKey (a.baRecEntry i) := by
    obtain ⟨hw, ht, hs⟩ := h
    rw [recKey, hw, ht, hs]
    rfl
  exact recTable_setRec a i hkey

end

/-! ## Allocation -/

theorem baTableScan_spec (num len : Nat) (isNone : Nat → Bool) (idx : Nat)
    (hfree : num < len - 1 → ∃ i, i ≠ 0 ∧ i < len ∧ isNone i = true) :
    baTableScan num len isNone idx = (none, idx) ∨
      ∃ i, i ≠ 0 ∧ i < len ∧ isNone i = true ∧ baTableScan num len isNone idx = (some i, i) := by
  unfold baTableScan
  split
  · exact .inl rfl
  · rename_i hnum
    -- the counter promises a free slot, so the search does not fail
    obtain ⟨i, hi0, hi, hnone⟩ := hfree (Nat.lt_of_not_le hnum)
    cases hfind : (List.range' 1 (len - 1)).find? isNone with
    | none =>
      have hmem : i ∈ List.range' 1 (len - 1) := by
        rw [mem_range'_1]
        omega
      exact absurd hnone (find?_eq_none.mp hfind i hmem)
    | some j =>
      have hmem := mem_range'_1.mp (mem_of_find?_eq_some hfind)
      exact .inr ⟨j, by omega, by omega, find?_some hfind, rfl⟩

theorem recKey_eq_none {e : BaRecEntry} : recKey e = none ↔ e.recBaStatus = .none := by
  unfold recKey
  split <;> simp_all

theorem oriKey_eq_none {e : BaOriEntry} : oriKey e = none ↔ e.oriBaStatus = .none := by
  unfold oriKey
  split <;> simp_all

section

variable {a : Adapter}

/-- **Allocation** of a recipient slot takes one that is not in use, or fails. -/
theorem Adapter.Consistent.alloc_rec (h : a.Consistent) (idx : Nat) :
    baTableAllocRecEntry a idx = (none, idx, a) ∨
      ∃ i, i ≠ 0 ∧ i < maxLenOfBaRecTable ∧ (a.baRecEntry i).recBaStatus = .none ∧
        baTableAllocRecEntry a idx =
          (some i, i, (a.setRec i { a.baRecEntry i with recBaStatus := .used }).setNumRec
            (a.numAsRecipient + 1)) := by
  have hscan := baTableScan_spec a.numAsRecipient maxLenOfBaRecTable
    (fun i => decide ((a.baRecEntry i).recBaStatus = .none)) idx (by
      intro hlt
      obtain ⟨i, hi0, hi, hfree⟩ := h.rec_ok.exists_free hlt
      exact ⟨i, hi0, hi, decide_eq_true (recKey_eq_none.mp hfree)⟩)
  unfold baTableAllocRecEntry
  dsimp only
  rcases hscan with hscan | ⟨i, hi0, hi, hnone, hscan⟩
  · rw [hscan]
    exact .inl rfl
  · rw [hscan]
    simp only [hnone, if_true]
    exact .inr ⟨i, hi0, hi, of_decide_eq_true hnone, rfl⟩

/-- **Allocation** of an originator slot takes one that is not in use, or fails. -/
theorem Adapter.Consistent.alloc_ori (h : a.Consistent) (idx : Nat) :
    baTableAllocOriEntry a idx = (none, idx, a) ∨
      ∃ i, i ≠ 0 ∧ i < maxLenOfBaOriTable ∧ (a.baOriEntry i).oriBaStatus = .none ∧
        baTableAllocOriEntry a idx =
          (some i, i, (a.setOri i { a.baOriEntry i with oriBaStatus := .used }).setNumOri
            (a.numAsOriginator + 1)) := by
  have hscan := baTableScan_spec a.numAsOriginator maxLenOfBaOriTable
    (fun i => decide ((a.baOriEntry i).oriBaStatus = .none)) idx (by
      intro hlt
      obtain ⟨i, hi0, hi, hfree⟩ := h.ori_ok.exists_free hlt
      exact ⟨i, hi0, hi, decide_eq_true (oriKey_eq_none.mp hfree)⟩)
  unfold baTableAllocOriEntry
  dsimp only
  rcases hscan with hscan | ⟨i, hi0, hi, hnone, hscan⟩
  · rw [hscan]
    exact .inl rfl
  · rw [hscan]
    simp only [hnone, if_true]
    exact .inr ⟨i, hi0, hi, of_decide_eq_true hnone, rfl⟩

/-! ## Release -/

theorem ulongPred_of_pos {n : Nat} (h : 1 ≤ n) : ulongPred n = n - 1 := by
  rw [ulongPred, if_neg (by omega)]

/-- **Release** of a recipient slot.  The state `a'` in which the slot is freed may
    already have lost the index of its key. -/
theorem Adapter.Consistent.free_rec (h : a.Consistent) {a' : Adapter} {idx : Nat}
    (hidx : idx < maxLenOfBaRecTable) {k : SessionKey} (hk : a.recTable.used idx = some k)
    (hused : a'.recTable.used = a.recTable.used) (hcount : a'.numAsRecipient = a.numAsRecipient)
    (hindex : ∀ k', validKey k' → k' ≠ k → a'.recTable.index k' = a.recTable.index k')
    (hori : a'.oriTable = a.oriTable) (haid : a'.aids = a.aids) :
    (baTableFreeRecEntry a' idx).Consistent := by
  obtain ⟨-, hidx0⟩ := h.rec_ok.index_of_used hidx hk
  -- the slot still knows its key, and its index is cleared once more
  have hk' : recKey (a'.baRecEntry idx) = some k := (congrFun hused idx).trans hk
  have hstatus : (a'.baRecEntry idx).recBaStatus ≠ .none := by
    intro hnone
    rw [recKey_eq_none.mpr hnone] at hk'
    exact absurd hk' (by simp)
  have hkey : ((a'.baRecEntry idx).wcid, (a'.baRecEntry idx).tid) = k := by
    rw [recKey, if_neg hstatus, Option.some.injEq] at hk'
    exact hk'
  have hguard : ¬ (idx = 0 ∨ maxLenOfBaRecTable ≤ idx) := by omega
  unfold baTableFreeRecEntry
  rw [if_neg hguard]
  dsimp only
  rw [if_pos hstatus]
  refine ⟨?_, by simpa [hori] using h.ori_ok, by simpa [haid] using h.aid⟩
  -- slots, index and counter lose the key together
  apply h.rec_ok.release hidx hk
  · exact (recTable_used_setRec _ _ _ _).trans ((if_pos rfl).trans (recKey_eq_none.mpr rfl))
  · intro j hj
    exact (recTable_used_setRec _ _ _ _).trans ((if_neg hj).trans (congrFun hused j))
  · refine (recTable_index_setRecIdx a' _ _ 0 k).trans ?_
    rw [hkey, if_pos rfl]
  · intro k' hvalid hne
    refine (recTable_index_setRecIdx a' _ _ 0 k').trans ?_
    rw [hkey, if_neg hne]
    exact hindex k' hvalid hne
  · refine Eq.trans ?_ (ulongPred_of_pos (h.rec_ok.count_pos hidx hk))
    exact congrArg ulongPred hcount

/-- **Release** of an originator slot. -/
theorem Adapter.Consistent.free_ori (h : a.Consistent) (idx : Nat) :
    (baTableFreeOriEntry a idx).Consistent := by
  unfold baTableFreeOriEntry
  split
  · exact h
  · rename_i hguard
    obtain ⟨hidx0, hidx⟩ : idx ≠ 0 ∧ idx < maxLenOfBaOriTable := by omega
    dsimp only
    split
    · rename_i hstatus
      have hk : a.oriTable.used idx = some ((a.baOriEntry idx).wcid, (a.baOriEntry idx).tid) := by
        change oriKey _ = _
        rw [oriKey, if_neg hstatus]
      -- for a session that is done the bitmap and its counter change too
      have hfree : ∀ b : Adapter,
          b.oriTable = (a.setOriIdx (a.baOriEntry idx).wcid (a.baOriEntry idx).tid 0).oriTable →
          b.recTable = a.recTable → b.aids = a.aids →
          ((b.setOri idx { a.baOriEntry idx with oriBaStatus := .none, token := 0 }).setNumOri
            (ulongPred b.numAsOriginator)).Consistent := by
        intro b hori hrec haid
        refine ⟨by simpa [hrec] using h.rec_ok, ?_, by simpa [haid] using h.aid⟩
        apply h.ori_ok.release hidx hk
        · exact (oriTable_used_setOri _ _ _ _).trans ((if_pos rfl).trans (oriKey_eq_none.mpr rfl))
        · intro j hj
          exact (oriTable_used_setOri _ _ _ _).trans ((if_neg hj).trans
            (congrFun (congrArg SlotTable.used hori) j))
        · refine (congrFun (congrArg SlotTable.index hori) _).trans ?_
          rw [oriTable_index_setOriIdx, if_pos rfl]
        · intro k' hvalid hne
          refine (congrFun (congrArg SlotTable.index hori) k').trans ?_
          rw [oriTable_index_setOriIdx, if_neg hne]
        · refine Eq.trans ?_ (ulongPred_of_pos (h.ori_ok.count_pos hidx hk))
          exact congrArg ulongPred (congrArg SlotTable.count hori)
      split
      · exact hfree _ (by simp) (by simp) (by simp)
      · exact hfree _ rfl (by simp) (by simp)
    · exact h

/-! ## The session functions -/

theorem Adapter.Consistent.onRec (h : a.Consistent) (i : Nat) {f : Rx → Rx}
    (hf : ∀ s, SameSession s (f s)) : (a.onRec i f).Consistent :=
  h.of_eq (recTable_onRec a i (hf _)) rfl rfl

theorem oriTable_rewrite {i : Nat} {e : BaOriEntry} {k : SessionKey}
    (hk : a.oriTable.used i = some k) (he : oriKey e = some k) :
    (a.setOri i e).oriTable = a.oriTable :=
  oriTable_setOri a i (he.trans hk.symm)

theorem recTable_rewrite {i : Nat} {e : BaRecEntry} {k : SessionKey}
    (hk : a.recTable.used i = some k) (he : recKey e = some k) :
    (a.setRec i e).recTable = a.recTable :=
  recTable_setRec a i (he.trans hk.symm)

theorem oriTable_reindex (a : Adapter) (wcid tid : Nat) {idx : Nat}
    (h : a.oriTable.index (wcid, tid) = idx) :
    (a.setOriIdx wcid tid idx).oriTable = a.oriTable := by
  have hindex : (a.setOriIdx wcid tid idx).oriTable.index = a.oriTable.index := by
    funext k
    rw [oriTable_index_setOriIdx]
    split
    · rename_i hk
      rw [hk, h]
    · rfl
  simp only [Adapter.oriTable] at hindex ⊢
  rw [hindex]
  rfl

theorem recTable_reindex (a : Adapter) (wcid tid : Nat) {idx : Nat}
    (h : a.recTable.index (wcid, tid) = idx) :
    (a.setRecIdx wcid tid idx).recTable = a.recTable := by
  have hindex : (a.setRecIdx wcid tid idx).recTable.index = a.recTable.index := by
    funext k
    rw [recTable_index_setRecIdx]
    split
    · rename_i hk
      rw [hk, h]
    · rfl
  simp only [Adapter.recTable] at hindex ⊢
  rw [hindex]
  rfl

variable (h : a.Consistent)

include h

theorem Adapter.Consistent.oriSetUp {wcid tid : Nat} (hkey : validKey (wcid, tid)) (timeOut : Nat)
    (isForced : Bool) : (baOriSessionSetUp a wcid tid timeOut isForced).Consistent := by
  unfold baOriSessionSetUp
  split
  · exact h
  split
  · exact h
  split
  · exact h
  dsimp only
  by_cases hidx : (a.macTab wcid).baOriWcidArray tid = 0
  · -- a new session
    rw [if_pos hidx]
    rcases h.alloc_ori ((a.macTab wcid).baOriWcidArray tid) with
      halloc | ⟨i, hi0, hi, hnone, halloc⟩
    · rw [halloc]
      exact h
    · rw [halloc]
      -- the slot is marked as used, which is not yet waiting for a response
      obtain ⟨b, hb⟩ : ∃ b, (a.setOri i { a.baOriEntry i with oriBaStatus := .used }).setNumOri
        (a.numAsOriginator + 1) = b := ⟨_, rfl⟩
      have hentry : (b.baOriEntry i).oriBaStatus = .used := by
        rw [← hb]
        simp [Adapter.setNumOri, Adapter.setOri]
      have hused : ∀ j, j ≠ i → b.oriTable.used j = a.oriTable.used j := by
        intro j hj
        rw [← hb]
        exact (oriTable_used_setOri _ _ _ _).trans (if_neg hj)
      have hindex : b.oriTable.index = a.oriTable.index := by rw [← hb]; rfl
      have hcount : b.oriTable.count = a.oriTable.count + 1 := by rw [← hb]; rfl
      have hrec : b.recTable = a.recTable := by rw [← hb]; simp
      have haids : b.aids = a.aids := by rw [← hb]; simp
      rw [hb]
      simp only [hentry, OriBlockackStatus.geWaitRes, Bool.false_eq_true, if_false]
      refine ⟨by simpa [hrec] using h.rec_ok, ?_, by simpa [haids] using h.aid⟩
      have haid : ((b.setOriIdx wcid tid i).macTab wcid).aid = wcid := by
        change (b.setOriIdx wcid tid i).aids wcid = wcid
        rw [aids_setOriIdx, haids]
        exact h.aid wcid hkey.1
      apply h.ori_ok.claim hkey hi hi0 (oriKey_eq_none.mpr hnone) hidx
      · refine (oriTable_used_setOri _ _ _ _).trans ((if_pos rfl).trans ?_)
        rw [oriKey, if_neg (by simp), haid]
      · intro j hj
        exact (oriTable_used_setOri _ _ _ _).trans ((if_neg hj).trans (hused j hj))
      · exact (oriTable_index_setOriIdx b wcid tid i _).trans (if_pos rfl)
      · intro k' _ hne
        refine (oriTable_index_setOriIdx b wcid tid i k').trans ((if_neg hne).trans ?_)
        rw [hindex]
      · exact hcount
  · -- an old one: its slot holds the same key before and after
    rw [if_neg hidx]
    dsimp only
    split
    · exact h
    · obtain ⟨-, hold⟩ := h.ori_ok.used_of_index hkey hidx
      have haid : ((a.setOriIdx wcid tid ((a.macTab wcid).baOriWcidArray tid)).macTab wcid).aid =
          wcid := by
        change (a.setOriIdx wcid tid _).aids wcid = wcid
        rw [aids_setOriIdx]
        exact h.aid wcid hkey.1
      have hsame := oriTable_reindex a wcid tid rfl
      refine h.of_eq (by simp) ?_ (by simp)
      refine Eq.trans (oriTable_rewrite (k := (wcid, tid)) ?_ ?_) hsame
      · exact (congrFun (congrArg SlotTable.used hsame) _).trans hold
      · rw [oriKey, if_neg (by simp), haid]

theorem Adapter.Consistent.oriAdd {wcid tid : Nat} (hkey : validKey (wcid, tid))
    (bufSize timeOut : Nat) : (baOriSessionAdd a wcid tid bufSize timeOut).Consistent := by
  unfold baOriSessionAdd
  dsimp only
  split
  · rename_i hwait
    obtain ⟨-, hold⟩ := h.ori_ok.used_of_index hkey hwait.1
    refine h.of_eq (by simp) ?_ (by simp)
    rw [oriTable_setTxBitmap, oriTable_setNumDone]
    refine oriTable_rewrite hold ?_
    have hk : oriKey (a.baOriEntry ((a.macTab wcid).baOriWcidArray tid)) = some (wcid, tid) := hold
    rw [oriKey, if_neg (by rw [hwait.2.2]; simp)] at hk
    rw [oriKey, if_neg (by simp)]
    exact hk
  · exact h

theorem Adapter.Consistent.oriTearDown (wcid tid : Nat) (bPassive allocOk : Bool) :
    (baOriSessionTearDown a wcid tid bPassive allocOk).Consistent := by
  unfold baOriSessionTearDown
  split
  · exact h
  dsimp only
  split
  · exact h
  split
  · exact h
  · exact h.free_ori _

theorem Adapter.Consistent.oriTimeout (i : Nat) (off scanning : Bool) :
    (baOriSessionSetupTimeout a i off scanning).Consistent := by
  unfold baOriSessionSetupTimeout
  split
  · exact h
  dsimp only
  split
  · split
    · exact h
    · exact h.of_eq (by simp) (oriTable_setOri a i rfl) (by simp)
  · exact h.free_ori _

theorem Adapter.Consistent.recAdd {wcid tid : Nat} (hkey : validKey (wcid, tid)) (bufSize : Nat) :
    (baRecSessionAdd a wcid tid bufSize).2.Consistent := by
  unfold baRecSessionAdd
  dsimp only
  by_cases hidx : (a.macTab wcid).baRecWcidArray tid = 0
  · -- a new session
    rw [if_pos hidx]
    rcases h.alloc_rec ((a.macTab wcid).baRecWcidArray tid) with
      halloc | ⟨i, hi0, hi, hnone, halloc⟩
    · rw [halloc]
      exact h
    · rw [halloc]
      obtain ⟨b, hb⟩ : ∃ b, (a.setRec i { a.baRecEntry i with recBaStatus := .used }).setNumRec
        (a.numAsRecipient + 1) = b := ⟨_, rfl⟩
      -- the slot is marked as used before it holds its key
      have hused : ∀ j, j ≠ i → b.recTable.used j = a.recTable.used j := by
        intro j hj
        rw [← hb]
        exact (recTable_used_setRec _ _ _ _).trans (if_neg hj)
      have hindex : b.recTable.index = a.recTable.index := by rw [← hb]; rfl
      have hcount : b.recTable.count = a.recTable.count + 1 := by rw [← hb]; rfl
      have hori : b.oriTable = a.oriTable := by rw [← hb]; simp
      have haids : b.aids = a.aids := by rw [← hb]; simp
      rw [hb]
      dsimp only
      refine ⟨?_, by simpa [hori] using h.ori_ok, by simpa [haids] using h.aid⟩
      have haid : (b.macTab wcid).aid = wcid := by
        change b.aids wcid = wcid
        rw [haids]
        exact h.aid wcid hkey.1
      apply h.rec_ok.claim hkey hi hi0 (recKey_eq_none.mpr hnone) hidx
      · refine (recTable_used_setRec b i _ i).trans ((if_pos rfl).trans ?_)
        rw [recKey, if_neg (by simp [recEntryFill]), recEntryFill, haid]
      · intro j hj
        exact (recTable_used_setRec b i _ j).trans ((if_neg hj).trans (hused j hj))
      · exact (recTable_index_setRecIdx _ wcid tid i _).trans (if_pos rfl)
      · intro k' _ hne
        refine (recTable_index_setRecIdx _ wcid tid i k').trans ((if_neg hne).trans ?_)
        rw [recTable_setRxBitmap]
        exact congrFun hindex k'
      · exact hcount
  · -- an old one: its slot holds the same key before and after
    rw [if_neg hidx]
    dsimp only
    obtain ⟨-, hold⟩ := h.rec_ok.used_of_index hkey hidx
    have hflush := recTable_onRec a ((a.macTab wcid).baRecWcidArray tid)
      (refresh_sameSession (a.rx ((a.macTab wcid).baRecWcidArray tid)))
    have hfill : ((a.onRec ((a.macTab wcid).baRecWcidArray tid) baRefreshReorderingMpdus).setRec
        ((a.macTab wcid).baRecWcidArray tid)
        (recEntryFill ((a.onRec ((a.macTab wcid).baRecWcidArray tid)
          baRefreshReorderingMpdus).baRecEntry ((a.macTab wcid).baRecWcidArray tid))
          (a.macTab wcid).aid tid (recBaWinSize bufSize a.rxBaWinLimit))).recTable =
        a.recTable := by
      refine Eq.trans (recTable_rewrite (k := (wcid, tid)) ?_ ?_) hflush
      · exact (congrFun (congrArg SlotTable.used hflush) _).trans hold
      · rw [recKey, if_neg (by simp [recEntryFill]), recEntryFill]
        exact congrArg (fun w => some (w, tid)) (h.aid wcid hkey.1)
    refine h.of_eq ?_ (by simp) (by simp)
    refine Eq.trans (recTable_reindex _ wcid tid ?_) ((recTable_setRxBitmap _ _ _).trans hfill)
    rw [recTable_setRxBitmap]
    exact congrFun (congrArg SlotTable.index hfill) (wcid, tid)

theorem Adapter.Consistent.recTearDown (wcid : Nat) {tid : Nat} (htid : tid < numOfTid)
    (bPassive allocOk : Bool) : (baRecSessionTearDown a wcid tid bPassive allocOk).Consistent := by
  unfold baRecSessionTearDown
  split
  · exact h
  rename_i hwcid
  dsimp only
  split
  · exact h
  rename_i hidx
  -- the session torn down is the one the station array points to
  have hkey : validKey (wcid, tid) := ⟨Nat.lt_of_not_le hwcid, htid⟩
  obtain ⟨hlt, hold⟩ := h.rec_ok.used_of_index hkey hidx
  split
  · split
    · exact h
    · -- the index goes before the slot is freed
      have hflush := recTable_onRec a ((a.macTab wcid).baRecWcidArray tid)
        (refresh_sameSession (a.rx ((a.macTab wcid).baRecWcidArray tid)))
      have hclear : ∀ (b : Adapter) (i : Nat), (b.setRec i { b.baRecEntry i with
          lastIndSeq := resetRcvSeq, baWinSize := 0 }).recTable = b.recTable :=
        fun b i => recTable_setRec b i rfl
      refine h.free_rec hlt hold ?_ rfl ?_ (by simp) (by simp)
      · have hused := congrArg SlotTable.used
          ((hclear _ ((a.macTab wcid).baRecWcidArray tid)).trans hflush)
        exact hused
      · intro k' _ hne
        refine (recTable_index_setRecIdx _ wcid tid 0 k').trans ((if_neg hne).trans ?_)
        rw [recTable_setRxBitmap]
        rfl
  · exact h.free_rec hlt hold rfl rfl (fun _ _ _ => rfl) rfl rfl

theorem Adapter.Consistent.tearDownAll (wcid : Nat) (allocOk : Bool) :
    (baSessionTearDownAll a wcid allocOk).Consistent := by
  unfold baSessionTearDownAll
  have hall : ∀ tids : List Nat, (∀ tid ∈ tids, tid < numOfTid) → ∀ a : Adapter, a.Consistent →
      (tids.foldl (fun a tid => baRecSessionTearDown (baOriSessionTearDown a wcid tid false allocOk)
        wcid tid false allocOk) a).Consistent := by
    intro tids
    induction tids with
    | nil => exact fun _ a h => h
    | cons tid tids ih =>
      intro hlt a h
      obtain ⟨htid, hrest⟩ := forall_mem_cons.mp hlt
      exact ih hrest _ ((h.oriTearDown wcid tid false allocOk).recTearDown wcid htid false allocOk)
  exact hall _ (fun tid ht => mem_range.mp ht) a h

/-- **Step**: every event keeps both tables consistent. -/
theorem Adapter.Consistent.step (e : AdapterEvent) : (a.step e).Consistent := by
  -- the reordering functions leave the tables alone
  cases e with
  | oriSetUp wcid tid timeOut isForced hkey => exact h.oriSetUp hkey timeOut isForced
  | oriAdd wcid tid bufSize timeOut hkey => exact h.oriAdd hkey bufSize timeOut
  | oriTearDown wcid tid bPassive allocOk _ => exact h.oriTearDown wcid tid bPassive allocOk
  | oriTimeout i off scanning _ => exact h.oriTimeout i off scanning
  | recAdd wcid tid bufSize hkey => exact h.recAdd hkey bufSize
  | recTearDown wcid tid bPassive allocOk htid =>
    exact h.recTearDown wcid htid bPassive allocOk
  | tearDownAll wcid allocOk => exact h.tearDownAll wcid allocOk
  | recFlush i now _ => exact h.onRec i fun s => flush_sameSession s now
  | recIdle i now _ =>
    exact h.onRec (f := fun s => baRecSessionIdleTimeout s now) i fun s => idle_sameSession s now
  | arrival now wcid tid p _ =>
    change (a.indicateArrival now wcid tid p).Consistent
    unfold Adapter.indicateArrival
    split
    · exact h.of_eq rfl rfl rfl
    split
    · dsimp only
      split
      · exact h.of_eq rfl rfl rfl
      · exact h.onRec _ fun s => arrival_sameSession s now p
    · exact h.of_eq rfl rfl rfl
  | bar wcid tid startSeq _ =>
    change (a.cntlEnqueueForRecv wcid tid startSeq).Consistent
    unfold Adapter.cntlEnqueueForRecv
    split
    · exact h.onRec _ fun s => bar_sameSession s startSeq
    · exact h

end

/-! ## Runs -/

/-- What the tables promise, in the terms of the source. -/
structure Adapter.TablesOk (a : Adapter) : Prop where
  numAsRecipient : a.numAsRecipient =
    ((range maxLenOfBaRecTable).filter fun i => (a.baRecEntry i).recBaStatus ≠ .none).length
  numAsOriginator : a.numAsOriginator =
    ((range maxLenOfBaOriTable).filter fun i => (a.baOriEntry i).oriBaStatus ≠ .none).length
  recSlotZero : (a.baRecEntry 0).recBaStatus = .none
  oriSlotZero : (a.baOriEntry 0).oriBaStatus = .none
  recIndex : ∀ wcid tid, wcid < maxLenOfMacTable → tid < numOfTid → ∀ i,
    (i ≠ 0 ∧ (a.macTab wcid).baRecWcidArray tid = i) ↔
      (i < maxLenOfBaRecTable ∧ (a.baRecEntry i).recBaStatus ≠ .none ∧
        (a.baRecEntry i).wcid = wcid ∧ (a.baRecEntry i).tid = tid)
  oriIndex : ∀ wcid tid, wcid < maxLenOfMacTable → tid < numOfTid → ∀ i,
    (i ≠ 0 ∧ (a.macTab wcid).baOriWcidArray tid = i) ↔
      (i < maxLenOfBaOriTable ∧ (a.baOriEntry i).oriBaStatus ≠ .none ∧
        (a.baOriEntry i).wcid = wcid ∧ (a.baOriEntry i).tid = tid)
  recAlloc : ∀ idx i, (baTableAllocRecEntry a idx).1 = some i →
    i ≠ 0 ∧ i < maxLenOfBaRecTable ∧ (a.baRecEntry i).recBaStatus = .none
  oriAlloc : ∀ idx i, (baTableAllocOriEntry a idx).1 = some i →
    i ≠ 0 ∧ i < maxLenOfBaOriTable ∧ (a.baOriEntry i).oriBaStatus = .none

theorem recKey_eq_some {e : BaRecEntry} {wcid tid : Nat} :
    recKey e = some (wcid, tid) ↔ e.recBaStatus ≠ .none ∧ e.wcid = wcid ∧ e.tid = tid := by
  unfold recKey
  split <;> simp_all

theorem oriKey_eq_some {e : BaOriEntry} {wcid tid : Nat} :
    oriKey e = some (wcid, tid) ↔ e.oriBaStatus ≠ .none ∧ e.wcid = wcid ∧ e.tid = tid := by
  unfold oriKey
  split <;> simp_all

theorem Adapter.Consistent.tablesOk {a : Adapter} (h : a.Consistent) : a.TablesOk where
  numAsRecipient := by
    -- a slot is counted exactly when its status is set
    refine h.rec_ok.count_eq.trans ?_
    rw [usedCount, countP_eq_length_filter]
    have hsame : (fun i => (a.recTable.used i).isSome) =
        fun i => decide ((a.baRecEntry i).recBaStatus ≠ .none) := by
      funext i
      rw [Bool.eq_iff_iff, Option.isSome_iff_ne_none, decide_eq_true_eq]
      exact not_congr recKey_eq_none
    rw [hsame]
  numAsOriginator := by
    refine h.ori_ok.count_eq.trans ?_
    rw [usedCount, countP_eq_length_filter]
    have hsame : (fun i => (a.oriTable.used i).isSome) =
        fun i => decide ((a.baOriEntry i).oriBaStatus ≠ .none) := by
      funext i
      rw [Bool.eq_iff_iff, Option.isSome_iff_ne_none, decide_eq_true_eq]
      exact not_congr oriKey_eq_none
    rw [hsame]
  recSlotZero := recKey_eq_none.mp h.rec_ok.zero
  oriSlotZero := oriKey_eq_none.mp h.ori_ok.zero
  recIndex := fun wcid tid hw ht i =>
    (h.rec_ok.index_iff (wcid, tid) ⟨hw, ht⟩ i).trans (and_congr_right fun _ => recKey_eq_some)
  oriIndex := fun wcid tid hw ht i =>
    (h.ori_ok.index_iff (wcid, tid) ⟨hw, ht⟩ i).trans (and_congr_right fun _ => oriKey_eq_some)
  recAlloc := by
    intro idx i hi
    rcases h.alloc_rec idx with hnone | ⟨j, hj0, hj, hfree, halloc⟩
    · rw [hnone] at hi
      exact absurd hi (by simp)
    · rw [halloc, Option.some.injEq] at hi
      exact hi ▸ ⟨hj0, hj, hfree⟩
  oriAlloc := by
    intro idx i hi
    rcases h.alloc_ori idx with hnone | ⟨j, hj0, hj, hfree, halloc⟩
    · rw [hnone] at hi
      exact absurd hi (by simp)
    · rw [halloc, Option.some.injEq] at hi
      exact hi ▸ ⟨hj0, hj, hfree⟩

/-- An adapter before its first session. -/
structure Adapter.Idle (a : Adapter) : Prop where
  numAsRecipient : a.numAsRecipient = 0
  numAsOriginator : a.numAsOriginator = 0
  recNone : ∀ i, (a.baRecEntry i).recBaStatus = .none
  oriNone : ∀ i, (a.baOriEntry i).oriBaStatus = .none
  recIndex : ∀ wcid tid, (a.macTab wcid).baRecWcidArray tid = 0
  oriIndex : ∀ wcid tid, (a.macTab wcid).baOriWcidArray tid = 0

theorem Adapter.Idle.consistent {a : Adapter} (h : a.Idle)
    (haid : ∀ wcid, wcid < maxLenOfMacTable → (a.macTab wcid).aid = wcid) : a.Consistent where
  rec_ok := SlotTable.ok_empty (fun i => recKey_eq_none.mpr (h.recNone i))
    (fun k => h.recIndex k.1 k.2) h.numAsRecipient
  ori_ok := SlotTable.ok_empty (fun i => oriKey_eq_none.mpr (h.oriNone i))
    (fun k => h.oriIndex k.1 k.2) h.numAsOriginator
  aid := haid

/-- **Session tables**: from an adapter without sessions, whose stations' `Aid` is
    their place in the MAC table, every run leaves both tables consistent, and an
    allocation never hands out a slot in use. -/
theorem session_tables_run (a : Adapter) (hidle : a.Idle)
    (haid : ∀ wcid, wcid < maxLenOfMacTable → (a.macTab wcid).aid = wcid)
    (es : List AdapterEvent) : (runEvents Adapter.step a es).TablesOk := by
  have hrun : (runEvents Adapter.step a es).Consistent :=
    runEvents_invariant es (fun _ e h => h.step e) (hidle.consistent haid)
  exact hrun.tablesOk

/-! ### A run -/

/-- A station that has no session yet. -/
def newStation (wcid : Nat) : MacTableEntry :=
  ⟨wcid, 0, 3, true, fun _ => 0, 0#16, 0#16, fun _ => 0, fun _ => 0⟩

/-- An adapter before its first session, with two free blocks. -/
def newAdapter : Adapter where
  macTab := newStation
  numAsRecipient := 0
  numAsOriginator := 0
  numDoneOriginator := 0
  baOriEntry := fun _ => ⟨0, 0, 0, 0, 0, 0, .none⟩
  baRecEntry := fun _ => ⟨0, 0, 0, 0, 0#32, 0, .none, ⟨[], 0⟩⟩
  freelist := ⟨[1, 2], 2⟩
  up := []
  released := []
  autoBa := true
  rxBaWinLimit := 32
  macVersion := 0x30700200

/-- Stations 1 and 2 set up sessions, and station 1 tears its own down again. -/
theorem session_tables_two_stations : (runEvents Adapter.step newAdapter
      [.oriSetUp 1 0 0 true (by decide), .recAdd 1 0 8 (by decide), .recAdd 2 0 8 (by decide),
        .recTearDown 1 0 true true (by decide)]).TablesOk :=
  session_tables_run newAdapter
    ⟨rfl, rfl, fun _ => rfl, fun _ => rfl, fun _ _ => rfl, fun _ _ => rfl⟩ (fun _ _ => rfl) _

end RalinkSdk.BlockAck
