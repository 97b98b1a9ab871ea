import RalinkSdk.BlockAck.ReorderSpec

/-!
# Where frames and blocks go

Every function of `RalinkSdk.BlockAck.Reorder` moves frames between the reorder
list, the upper layer and the release log, and blocks between the reorder list and
the free list.  `Accounts s s' taken lost` books one such function: `taken` came in,
`lost` is in neither list any more.

Nothing here depends on the order of the list or on the window, so these facts hold
of every state whose counters count.
-/

namespace RalinkSdk.BlockAck

open List

/-! ## Bookkeeping -/

/-- `qlen` of both lists counts their entries. -/
structure Rx.Counted (s : Rx) : Prop where
  list : s.entry.list.qlen = s.entry.list.next.length
  pool : s.freelist.qlen = s.freelist.next.length

/-- All frames the session was ever given: handed up, released or queued. -/
def Rx.frames (s : Rx) : List RxBlk := s.up ++ s.released ++ s.entry.list.next.map (·.pPacket)

/-- All blocks in reach: free or queued. -/
def Rx.blocks (s : Rx) : List Nat := s.freelist.next ++ s.entry.list.next.map (·.blk)

/-- The session with this free list. -/
def Rx.withPool (s : Rx) (pool : List Nat) : Rx := { s with freelist := ⟨pool, pool.length⟩ }

@[simp] theorem Rx.withPool_entry (s : Rx) (pool : List Nat) : (s.withPool pool).entry = s.entry :=
  rfl

theorem Rx.Counted.list_eq {s : Rx} (hs : s.Counted) :
    s.entry.list = ⟨s.entry.list.next, s.entry.list.next.length⟩ := by
  rw [← hs.list]

/-- Between `s` and `s'` the frames `taken` came in and the blocks `lost` went
    missing; all others are still there. -/
structure Accounts (s s' : Rx) (taken : List RxBlk) (lost : List Nat) : Prop where
  counted : s'.Counted
  frames : s'.frames.Perm (s.frames ++ taken)
  blocks : (s'.blocks ++ lost).Perm s.blocks

section

variable {s s' s'' : Rx} {taken taken' : List RxBlk} {lost lost' : List Nat}

theorem Accounts.refl (hs : s.Counted) : Accounts s s [] [] :=
  ⟨hs, by rw [append_nil], by rw [append_nil]⟩

theorem Accounts.trans (h : Accounts s s' taken lost) (h' : Accounts s' s'' taken' lost') :
    Accounts s s'' (taken ++ taken') (lost' ++ lost) where
  counted := h'.counted
  frames := by
    rw [← append_assoc]
    exact h'.frames.trans (h.frames.append_right taken')
  blocks := by
    rw [← append_assoc]
    exact (h'.blocks.append_right lost).trans h.blocks

theorem Accounts.then (h : Accounts s s' taken lost) (h' : Accounts s' s'' [] []) :
    Accounts s s'' taken lost := by
  simpa using h.trans h'

theorem Accounts.after (h : Accounts s s' [] []) (h' : Accounts s' s'' taken lost) :
    Accounts s s'' taken lost := by
  simpa using h.trans h'

theorem Accounts.setLastIndSeq (h : Accounts s s' taken lost) (seq : Nat) :
    Accounts s (s'.setLastIndSeq seq) taken lost :=
  ⟨⟨h.counted.list, h.counted.pool⟩, h.frames, h.blocks⟩

theorem Accounts.setTimer (h : Accounts s s' taken lost) (now : BitVec 32) :
    Accounts s (s'.setTimer now) taken lost :=
  ⟨⟨h.counted.list, h.counted.pool⟩, h.frames, h.blocks⟩

end

/-! ## The functions -/

section

variable {s : Rx}

section

variable (hs : s.Counted)

include hs

theorem handUpFirst_accounts {ms rest : List ReorderingMpdu}
    (hlist : s.entry.list.next = ms ++ rest) : Accounts s (s.handUpFirst ms rest) [] [] where
  counted := by
    refine ⟨rfl, ?_⟩
    simp only [Rx.handUpFirst, hs.pool, length_append, length_reverse, length_map]
    omega
  frames := by
    simp only [Rx.frames, Rx.handUpFirst, hlist, map_append, append_assoc, append_nil]
    -- the new frames move past the release log
    refine (perm_append_left_iff _).mpr ?_
    rw [← append_assoc, ← append_assoc]
    exact perm_append_comm.append_right _
  blocks := by
    simp only [Rx.blocks, Rx.handUpFirst, hlist, map_append, append_nil]
    rw [← append_assoc]
    refine List.Perm.append_right _ ?_
    exact perm_append_comm.trans ((reverse_perm _).append_left _)

theorem handUp_accounts (p : RxBlk) : Accounts s (s.handUp p) [p] [] where
  counted := ⟨hs.list, hs.pool⟩
  frames := by
    simp only [Rx.frames, Rx.handUp, append_assoc]
    refine (perm_append_left_iff _).mpr ?_
    rw [← append_assoc s.released]
    exact perm_append_comm
  blocks := by rw [append_nil]; rfl

theorem releaseNdisPacket_accounts (p : RxBlk) : Accounts s (s.releaseNdisPacket p) [p] [] where
  counted := ⟨hs.list, hs.pool⟩
  frames := by
    simp only [Rx.frames, Rx.releaseNdisPacket, append_assoc]
    refine (perm_append_left_iff _).mpr ((perm_append_left_iff _).mpr ?_)
    exact perm_append_comm
  blocks := by rw [append_nil]; rfl

theorem drop_accounts (p : RxBlk) : Accounts s (s.drop p) [p] [] := by
  obtain ⟨hc, hf, hb⟩ := releaseNdisPacket_accounts hs p
  exact ⟨⟨hc.list, hc.pool⟩, hf, hb⟩

theorem indicateWhile_accounts (test : Nat → ReorderingMpdu → Bool) (start last : Nat) :
    Accounts s (indicateWhile test s.entry.list.next.length s start last).1 [] [] := by
  rw [indicateWhile_eq test s.entry.list.next s start last hs.list_eq]
  exact handUpFirst_accounts hs (prefix_iff_eq_append.mp (runOf_isPrefix test start _)).symm

theorem leSeq_accounts (seq : Nat) : Accounts s (baIndicateReorderingMpdusLeSeq s seq) [] [] :=
  indicateWhile_accounts hs _ _ _

theorem continueInOrder_accounts : Accounts s (continueInOrder s) [] [] := by
  have hloop := indicateWhile_accounts hs (fun start m => seqStepOne m.sequence start)
    s.entry.lastIndSeq resetRcvSeq
  unfold continueInOrder
  dsimp only
  split
  · exact hloop.setLastIndSeq _
  · exact hloop

theorem refresh_accounts : Accounts s (baRefreshReorderingMpdus s) [] [] := by
  rw [refresh_eq s hs.list_eq]
  exact (handUpFirst_accounts hs (append_nil _).symm).setLastIndSeq _

theorem flushOne_accounts (now : BitVec 32) : Accounts s (flushOne s now) [] [] := by
  have hle := ((leSeq_accounts hs ((s.entry.lastIndSeq + 1) &&& maxSeq)).setTimer now).setLastIndSeq
    ((s.entry.lastIndSeq + 1) &&& maxSeq)
  exact hle.then (continueInOrder_accounts hle.counted)

theorem baFlushReorderingTimeoutMpdus_accounts (now : BitVec 32) :
    Accounts s (baFlushReorderingTimeoutMpdus s now) [] [] := by
  unfold baFlushReorderingTimeoutMpdus
  split
  · exact .refl hs
  · split
    · exact (refresh_accounts hs).setTimer now
    · split
      · exact flushOne_accounts hs now
      · exact .refl hs

theorem baRecSessionIdleTimeout_accounts (now : BitVec 32) :
    Accounts s (baRecSessionIdleTimeout s now) [] [] := by
  unfold baRecSessionIdleTimeout
  split
  · exact refresh_accounts hs
  · exact .refl hs

theorem cntlEnqueueForRecv_accounts (startSeq : Nat) :
    Accounts s (cntlEnqueueForRecv s startSeq) [] [] := by
  unfold cntlEnqueueForRecv
  split
  · exact (leSeq_accounts hs startSeq).setLastIndSeq _
  · exact .refl hs

end

/-! ## Queueing a frame -/

theorem insertScan_perm {m : ReorderingMpdu} {l l' : List ReorderingMpdu}
    (h : insertScan m l = some l') : l'.Perm (m :: l) := by
  induction l generalizing l' with
  | nil =>
    rw [insertScan, Option.some.injEq] at h
    rw [← h]
  | cons x l ih =>
    rw [insertScan] at h
    split at h
    · obtain ⟨l₂, hl₂, rfl⟩ := Option.map_eq_some_iff.mp h
      exact ((ih hl₂).cons x).trans (List.Perm.swap m x l)
    · split at h
      · exact absurd h (by simp)
      · rw [Option.some.injEq] at h
        rw [← h]

theorem baMpduBlkAlloc_cases (hs : s.Counted) :
    (s.freelist.next = [] ∧ baMpduBlkAlloc s = (none, s)) ∨
      ∃ blk pool, s.freelist.next = blk :: pool ∧
        baMpduBlkAlloc s = (some blk, s.withPool pool) := by
  obtain ⟨entry, ⟨next, qlen⟩, up, released⟩ := s
  have hpool := hs.pool
  simp only at hpool
  subst hpool
  cases next with
  | nil => exact .inl ⟨rfl, by simp [baMpduBlkAlloc, baDequeue]⟩
  | cons blk pool =>
    refine .inr ⟨blk, pool, rfl, ?_⟩
    simp only [baMpduBlkAlloc, baDequeue_cons, Rx.withPool]

theorem baMpduBlkFree_withPool (hs : s.Counted) {blk : Nat} {pool : List Nat}
    (hcons : s.freelist.next = blk :: pool) (p : RxBlk) :
    baMpduBlkFree ((s.withPool pool).releaseNdisPacket p) blk = s.releaseNdisPacket p := by
  obtain ⟨entry, ⟨next, qlen⟩, up, released⟩ := s
  have hpool := hs.pool
  simp only at hpool hcons
  subst hpool hcons
  simp [baMpduBlkFree, baEnqueue, Rx.withPool, Rx.releaseNdisPacket]

theorem queue_accounts (hs : s.Counted) {blk : Nat} {pool : List Nat} {p : RxBlk}
    {l : List ReorderingMpdu} (hcons : s.freelist.next = blk :: pool)
    (hperm : l.Perm (⟨blk, p⟩ :: s.entry.list.next)) :
    Accounts s ((s.withPool pool).setList ⟨l, s.entry.list.qlen + 1⟩) [p] [] where
  counted := by
    refine ⟨?_, rfl⟩
    simp only [Rx.setList, hs.list, hperm.length_eq, length_cons]
    omega
  frames := by
    have hmap := hperm.map (·.pPacket)
    simp only [Rx.frames, Rx.setList, Rx.withPool, append_assoc]
    refine (perm_append_left_iff _).mpr ((perm_append_left_iff _).mpr ?_)
    exact hmap.trans (perm_append_singleton p _).symm
  blocks := by
    have hmap := hperm.map (·.blk)
    simp only [Rx.blocks, Rx.setList, Rx.withPool, hcons, append_nil]
    exact (hmap.append_left pool).trans perm_middle

theorem direct_accounts (hs : s.Counted) (p : RxBlk) :
    Accounts s (((baIndicateReorderingMpdusLeSeq s p.sequence).setLastIndSeq p.sequence).handUp p)
      [p] [] := by
  have hle := (leSeq_accounts hs p.sequence).setLastIndSeq p.sequence
  exact hle.after (handUp_accounts hle.counted p)

theorem baEnqueueReorderingPacket_accounts (hs : s.Counted) (p : RxBlk) :
    Accounts s (baEnqueueReorderingPacket s p) [p]
      (if p.eap then s.freelist.next.take 1 else []) := by
  unfold baEnqueueReorderingPacket
  -- without a block the frame is handed up directly, whatever it is
  rcases baMpduBlkAlloc_cases hs with ⟨hnil, halloc⟩ | ⟨blk, pool, hcons, halloc⟩
  · rw [halloc, hnil]
    simpa using direct_accounts hs p
  · rw [halloc, hcons]
    cases heap : p.eap with
    | true =>
      simp only [Bool.true_eq_false, if_false, if_true, take_succ_cons, take_zero]
      -- the direct path runs on the smaller pool, and the block is in no list
      have hdirect := direct_accounts (s := s.withPool pool) ⟨hs.list, rfl⟩ p
      refine ⟨hdirect.counted, hdirect.frames, ?_⟩
      have hblocks := hdirect.blocks
      rw [append_nil] at hblocks
      refine (hblocks.append_right [blk]).trans ?_
      simp only [Rx.blocks, Rx.withPool, hcons]
      exact perm_append_comm
    | false =>
      simp only [if_true, Bool.false_eq_true, if_false]
      unfold baReorderingMpduInsertsorted
      cases hins : insertScan ⟨blk, p⟩ s.entry.list.next with
      | none =>
        simp only [Rx.withPool_entry, hins]
        -- a duplicate gives its block back
        rw [baMpduBlkFree_withPool hs hcons]
        exact releaseNdisPacket_accounts hs p
      | some l =>
        simp only [Rx.withPool_entry, hins]
        exact queue_accounts hs hcons (insertScan_perm hins)

/-! ## Arrivals -/

/-- Cases IV and V of `Indicate_AMPDU_Packet`: the frame leaves a gap. -/
def Rx.reorders (s : Rx) (p : RxBlk) : Bool :=
  s.entry.lastIndSeq != resetRcvSeq && !seqStepOne p.sequence s.entry.lastIndSeq &&
    p.sequence != s.entry.lastIndSeq && !seqSmaller p.sequence s.entry.lastIndSeq

/-- Case IV: inside the window. -/
def Rx.inside (s : Rx) (p : RxBlk) : Bool :=
  seqSmaller p.sequence ((s.entry.lastIndSeq + s.entry.baWinSize + 1) &&& maxSeq)

/-- The first queued frame is at or before `seq`. -/
def Rx.headLe (s : Rx) (seq : Nat) : Bool :=
  match s.entry.list.next with
  | [] => false
  | m :: _ => m.sequence == seq || seqSmaller m.sequence seq

/-- An EAPOL frame leaves a gap while there is a free block, or while moving the
    window frees one. -/
def Rx.leaks (s : Rx) (p : RxBlk) : Bool :=
  p.eap && s.reorders p &&
    (!s.freelist.next.isEmpty ||
      !s.inside p && s.headLe (winStartSeq p.sequence s.entry.baWinSize))

theorem indicateArrival_cases (s : Rx) (now : BitVec 32) (p : RxBlk) : (s.reorders p = false ∧
      (indicateArrival s now p = ((s.setLastIndSeq p.sequence).setTimer now).handUp p ∧
          s.entry.lastIndSeq = resetRcvSeq ∨
        indicateArrival s now p =
            (continueInOrder ((s.setLastIndSeq p.sequence).handUp p)).setTimer now ∧
          s.entry.lastIndSeq ≠ resetRcvSeq ∧
          seqStepOne p.sequence s.entry.lastIndSeq = true ∨
        indicateArrival s now p = s.drop p ∧ s.entry.lastIndSeq ≠ resetRcvSeq ∧
          seqStepOne p.sequence s.entry.lastIndSeq = false)) ∨
      (s.reorders p = true ∧
        (s.inside p = true ∧ indicateArrival s now p = baEnqueueReorderingPacket s p ∨
          s.inside p = false ∧ indicateArrival s now p =
            continueInOrder (baEnqueueReorderingPacket
              (((baIndicateReorderingMpdusLeSeq s (winStartSeq p.sequence s.entry.baWinSize)
                ).setLastIndSeq (winStartSeq p.sequence s.entry.baWinSize)).setTimer now) p))) := by
  unfold indicateArrival Rx.reorders Rx.inside
  -- the tests of the code in their order: reset, next, equal, old, window
  by_cases hreset : s.entry.lastIndSeq = resetRcvSeq
  · simp [hreset]
  cases hstep : seqStepOne p.sequence s.entry.lastIndSeq with
  | true => simp [hreset]
  | false =>
    by_cases hdup : p.sequence = s.entry.lastIndSeq
    · simp [hreset, hdup]
    cases hold : seqSmaller p.sequence s.entry.lastIndSeq with
    | true => simp [hreset]
    | false =>
      cases hin : seqSmaller p.sequence
          ((s.entry.lastIndSeq + s.entry.baWinSize + 1) &&& maxSeq) with
      | true => simp [hreset, hdup]
      | false => simp [hreset, hdup]

theorem leSeq_freelist_eq_nil (hs : s.Counted) (seq : Nat) :
    (baIndicateReorderingMpdusLeSeq s seq).freelist.next = [] ↔
      s.freelist.next = [] ∧ s.headLe seq = false := by
  unfold baIndicateReorderingMpdusLeSeq Rx.headLe
  rw [indicateWhile_eq _ s.entry.list.next s _ _ hs.list_eq, runOf_const]
  simp only [Rx.handUpFirst, append_eq_nil_iff, reverse_eq_nil_iff, map_eq_nil_iff]
  rw [and_comm]
  refine and_congr_right fun _ => ?_
  cases s.entry.list.next with
  | nil => simp
  | cons m ms => simp [takeWhile_cons]

/-- **Arrival**: the frame is booked, and a block is lost exactly when the arrival
    `leaks`. -/
theorem indicateArrival_accounts (hs : s.Counted) (now : BitVec 32) (p : RxBlk) :
    ∃ lost, Accounts s (indicateArrival s now p) [p] lost ∧ (lost = [] ↔ s.leaks p = false) := by
  -- only the two paths into the reordering list can lose a block
  rcases indicateArrival_cases s now p with
    ⟨hno, ⟨heq, -⟩ | ⟨heq, -, -⟩ | ⟨heq, -, -⟩⟩ | ⟨hyes, ⟨hin, heq⟩ | ⟨hin, heq⟩⟩
  · refine ⟨[], ?_, by simp [Rx.leaks, hno]⟩
    rw [heq]
    have hset := ((Accounts.refl hs).setLastIndSeq p.sequence).setTimer now
    exact hset.after (handUp_accounts hset.counted p)
  · refine ⟨[], ?_, by simp [Rx.leaks, hno]⟩
    rw [heq]
    have hset := (Accounts.refl hs).setLastIndSeq p.sequence
    have hup := hset.after (handUp_accounts hset.counted p)
    exact (hup.then (continueInOrder_accounts hup.counted)).setTimer now
  · refine ⟨[], ?_, by simp [Rx.leaks, hno]⟩
    rw [heq]
    exact drop_accounts hs p
  · refine ⟨_, heq ▸ baEnqueueReorderingPacket_accounts hs p, ?_⟩
    cases heap : p.eap with
    | false => simp [Rx.leaks, heap]
    | true => simp [Rx.leaks, heap, hyes, hin]
  · -- the window moves up first, which may free blocks
    have hmove := ((leSeq_accounts hs (winStartSeq p.sequence s.entry.baWinSize)).setLastIndSeq
      (winStartSeq p.sequence s.entry.baWinSize)).setTimer now
    have henq := hmove.after (baEnqueueReorderingPacket_accounts hmove.counted p)
    refine ⟨_, heq ▸ henq.then (continueInOrder_accounts henq.counted), ?_⟩
    cases heap : p.eap with
    | false => simp [Rx.leaks, heap]
    | true =>
      have hfree := leSeq_freelist_eq_nil hs (winStartSeq p.sequence s.entry.baWinSize)
      simp only [if_true, take_eq_nil_iff, Nat.one_ne_zero, false_or]
      refine hfree.trans ?_
      simp [Rx.leaks, heap, hyes, hin]

end

end RalinkSdk.BlockAck
