import RalinkSdk.Lib.Run
import RalinkSdk.BlockAck.Accounting

/-!
# Invariant of a recipient session

A session is driven by arrivals, BARs, timeouts and re-adds.  The timeout flush with
which `Indicate_AMPDU_Packet` begins is an event of its own, since
`BaReOrderingBufferMaintain` runs it too; `indicateAmpduPacket_eq` puts the two
together again.
-/

namespace RalinkSdk.BlockAck

open Lib List Bool Nat

/-! ## The session as an event-driven component -/

/-- What happens to a session. -/
inductive Event where
  /-- `ba_flush_reordering_timeout_mpdus` -/
  | timeout (now : BitVec 32)
  /-- `Indicate_AMPDU_Packet` behind the timeout flush, with this free list -/
  | arrival (now : BitVec 32) (pool : List Nat) (p : RxBlk)
  /-- `CntlEnqueueForRecv` -/
  | bar (startSeq : Nat) (h : startSeq ≤ maxSeq)
  /-- `BARecSessionIdleTimeout` -/
  | idle (now : BitVec 32)
  /-- `BARecSessionAdd` on an existing session -/
  | readd (baWinSize : Nat) (h : 1 ≤ baWinSize ∧ baWinSize ≤ 64)

/-- The session handles one event. -/
def Rx.step (s : Rx) : Event → Rx
  | .timeout now => baFlushReorderingTimeoutMpdus s now
  | .arrival now pool p =>
    if p.oversize then s.releaseNdisPacket p
    else indicateArrival ((s.withPool pool).setTimer now) now p
  | .bar startSeq _ => cntlEnqueueForRecv s startSeq
  | .idle now => baRecSessionIdleTimeout s now
  | .readd baWinSize _ =>
    let s := baRefreshReorderingMpdus s
    { s with entry := recEntryFill s.entry s.entry.wcid s.entry.tid baWinSize }

theorem Rx.step_arrival (s : Rx) (now : BitVec 32) (pool : List Nat) (p : RxBlk) :
    s.step (.arrival now pool p) =
      if p.oversize then s.releaseNdisPacket p
      else indicateArrival ((s.withPool pool).setTimer now) now p := rfl

theorem indicateAmpduPacket_eq (s : Rx) (now : BitVec 32) (p : RxBlk) (hp : p.oversize = false)
    (hpool : (baFlushReorderingTimeoutMpdus s now).freelist.qlen =
      (baFlushReorderingTimeoutMpdus s now).freelist.next.length) : indicateAmpduPacket s now p =
      (s.step (.timeout now)).step
        (.arrival now (baFlushReorderingTimeoutMpdus s now).freelist.next p) := by
  have hsame : (baFlushReorderingTimeoutMpdus s now).withPool
      (baFlushReorderingTimeoutMpdus s now).freelist.next = baFlushReorderingTimeoutMpdus s now := by
    rw [Rx.withPool, ← hpool]
  simp only [indicateAmpduPacket, hp, Rx.step, false_eq_true, if_false, hsame]

/-! ## The invariant -/

/-- The counters count, the list is windowed over `LastIndSeq`, and a session
    without a `LastIndSeq` has nothing queued. -/
structure Rx.Ok (s : Rx) : Prop where
  counted : s.Counted
  win : 1 ≤ s.entry.baWinSize ∧ s.entry.baWinSize ≤ 64
  reset : s.entry.lastIndSeq = resetRcvSeq → s.entry.list.next = []
  window : s.entry.lastIndSeq ≠ resetRcvSeq → s.entry.lastIndSeq ≤ maxSeq ∧
    InWindow s.entry.lastIndSeq s.entry.baWinSize s.entry.list.next

/-- The sequence numbers in the list. -/
def Rx.queued (s : Rx) : List Nat := s.entry.list.next.map (·.sequence)

/-- The way from `LastIndSeq` to a number. -/
def Rx.dist (s : Rx) (seq : Nat) : Nat := circDist seqSpace s.entry.lastIndSeq seq

theorem resetRcvSeq_ne {seq : Nat} (h : seq ≤ maxSeq) : seq ≠ resetRcvSeq := by
  have : maxSeq < resetRcvSeq := by decide
  omega

section

variable {s : Rx}

theorem Rx.Ok.mk_window {s : Rx} (hcounted : s.Counted)
    (hwin : 1 ≤ s.entry.baWinSize ∧ s.entry.baWinSize ≤ 64) (hle : s.entry.lastIndSeq ≤ maxSeq)
    (hl : InWindow s.entry.lastIndSeq s.entry.baWinSize s.entry.list.next) : s.Ok :=
  ⟨hcounted, hwin, fun h => absurd h (resetRcvSeq_ne hle), fun _ => ⟨hle, hl⟩⟩

section

variable (hs : s.Ok)

include hs

theorem Rx.Ok.of_eq {s' : Rx} (hcounted : s'.Counted)
    (hwin : s'.entry.baWinSize = s.entry.baWinSize)
    (hseq : s'.entry.lastIndSeq = s.entry.lastIndSeq) (hlist : s'.entry.list = s.entry.list) :
    s'.Ok where
  counted := hcounted
  win := hwin ▸ hs.win
  reset := by rw [hseq, hlist]; exact hs.reset
  window := by rw [hseq, hwin, hlist]; exact hs.window

theorem Rx.Ok.setLastIndSeq {last : Nat} (hlast : last ≤ maxSeq)
    (hl : InWindow last s.entry.baWinSize s.entry.list.next) : (s.setLastIndSeq last).Ok :=
  Rx.Ok.mk_window ⟨hs.counted.list, hs.counted.pool⟩ hs.win hlast hl

theorem Rx.Ok.startAt (hL : s.entry.lastIndSeq = resetRcvSeq) {last : Nat} (hlast : last ≤ maxSeq) :
    (s.setLastIndSeq last).Ok := by
  apply hs.setLastIndSeq hlast
  rw [hs.reset hL]
  exact .nil

theorem Rx.Ok.setTimer (now : BitVec 32) : (s.setTimer now).Ok :=
  hs.of_eq ⟨hs.counted.list, hs.counted.pool⟩ rfl rfl rfl

theorem Rx.Ok.withPool (pool : List Nat) : (s.withPool pool).Ok :=
  hs.of_eq ⟨hs.counted.list, rfl⟩ rfl rfl rfl

theorem Rx.Ok.handUp (p : RxBlk) : (s.handUp p).Ok :=
  hs.of_eq (handUp_accounts hs.counted p).counted rfl rfl rfl

theorem Rx.Ok.releaseNdisPacket (p : RxBlk) : (s.releaseNdisPacket p).Ok :=
  hs.of_eq (releaseNdisPacket_accounts hs.counted p).counted rfl rfl rfl

theorem Rx.Ok.drop (p : RxBlk) : (s.drop p).Ok :=
  hs.of_eq (drop_accounts hs.counted p).counted rfl rfl rfl

/-! ## Handing up -/

theorem Rx.Ok.handUpFirst (hL : s.entry.lastIndSeq ≠ resetRcvSeq) {ms rest : List ReorderingMpdu}
    (hlist : s.entry.list.next = ms ++ rest) {last : Nat} (hlast : last ≤ maxSeq)
    (hfar : ∀ m ∈ rest, s.dist last < s.dist m.sequence) :
    ((s.handUpFirst ms rest).setLastIndSeq last).Ok := by
  obtain ⟨hle, hwin⟩ := hs.window hL
  rw [hlist] at hwin
  apply Rx.Ok.mk_window ((handUpFirst_accounts hs.counted hlist).setLastIndSeq last).counted hs.win
    hlast
  exact (hwin.sublist (sublist_append_right ms rest)).rebase (lt_seqSpace hle)
    (lt_seqSpace hlast) hfar

theorem Rx.Ok.leSeq_spec (hL : s.entry.lastIndSeq ≠ resetRcvSeq) {seq : Nat} (hseq : seq ≤ maxSeq)
    (hd : s.dist seq ≤ 2048) : ∃ ms rest, s.entry.list.next = ms ++ rest ∧
      baIndicateReorderingMpdusLeSeq s seq = s.handUpFirst ms rest ∧
      (∀ m ∈ ms, s.dist m.sequence ≤ s.dist seq) ∧ ∀ m ∈ rest, s.dist seq < s.dist m.sequence := by
  obtain ⟨hle, hwin⟩ := hs.window hL
  have hcut := hwin.takeWhile_le (s.dist seq)
  exact ⟨_, _, (takeWhile_append_dropWhile).symm,
    leSeq_eq s hs.counted.list_eq hle hs.win.2 hwin hseq hd, hcut.1, hcut.2⟩

end

theorem leSeq_baWinSize (hs : s.Counted) (seq : Nat) :
    (baIndicateReorderingMpdusLeSeq s seq).entry.baWinSize = s.entry.baWinSize := by
  unfold baIndicateReorderingMpdusLeSeq
  rw [indicateWhile_eq _ s.entry.list.next s _ _ hs.list_eq]
  rfl

/-- **Flush**: hand up everything to `seq` and put `LastIndSeq` to `last`, not
    beyond `seq`. -/
theorem Rx.Ok.flush (hs : s.Ok) (hL : s.entry.lastIndSeq ≠ resetRcvSeq) {seq last : Nat}
    (hseq : seq ≤ maxSeq) (hlast : last ≤ maxSeq) (hd : s.dist seq ≤ 2048)
    (hbelow : s.dist last ≤ s.dist seq) :
    ((baIndicateReorderingMpdusLeSeq s seq).setLastIndSeq last).Ok := by
  obtain ⟨ms, rest, hlist, heq, -, hrest⟩ := hs.leSeq_spec hL hseq hd
  rw [heq]
  apply hs.handUpFirst hL hlist hlast
  intro m hm
  exact Nat.lt_of_le_of_lt hbelow (hrest m hm)

/-- **In order**: handing up what follows keeps the invariant. -/
theorem Rx.Ok.continueInOrder (hs : s.Ok) (hL : s.entry.lastIndSeq ≠ resetRcvSeq) :
    (continueInOrder s).Ok := by
  obtain ⟨hle, hwin⟩ := hs.window hL
  obtain ⟨ms, rest, last, hlist, heq, hlast, -, -, hwin', -⟩ :=
    continueInOrder_spec s hs.counted.list_eq hle hs.win.2 hwin
  rw [heq]
  exact Rx.Ok.mk_window ((handUpFirst_accounts hs.counted hlist).setLastIndSeq last).counted hs.win
    hlast hwin'

theorem Rx.Ok.refresh (hs : s.Ok) : (baRefreshReorderingMpdus s).Ok where
  counted := (refresh_accounts hs.counted).counted
  win := by rw [refresh_eq s hs.counted.list_eq]; exact hs.win
  reset := fun _ => by rw [refresh_eq s hs.counted.list_eq]; rfl
  window := fun h => absurd (by rw [refresh_eq s hs.counted.list_eq]; rfl) h

/-! ## How far away an arriving frame is -/

theorem Rx.seqSmaller_dist {a b : Nat} (hle : s.entry.lastIndSeq ≤ maxSeq) (ha : a ≤ maxSeq)
    (hb : b ≤ maxSeq) (hda : s.dist a ≤ 2048) (hdb : s.dist b ≤ 2048)
    (hnear : s.dist a < s.dist b + 2048) : seqSmaller a b = true ↔ s.dist a < s.dist b :=
  seqSmaller_window hle ha hb hda hdb hnear

theorem and_maxSeq_le (n : Nat) : n &&& maxSeq ≤ maxSeq := and_le_right

variable {p : RxBlk}

theorem Rx.reorders_dist (hle : s.entry.lastIndSeq ≤ maxSeq)
    (h : s.reorders p = true) : 2 ≤ s.dist p.sequence ∧ s.dist p.sequence ≤ 2047 := by
  simp only [Rx.reorders, and_eq_true, not_eq_true', bne_iff_ne, ne_eq] at h
  obtain ⟨⟨⟨-, hstep⟩, hdup⟩, hold⟩ := h
  have hspace : seqSpace = 4096 := rfl
  have h0 : s.dist p.sequence ≠ 0 := fun h0 => hdup (circDist_eq_zero (lt_seqSpace hle) h0).symm
  have h1 : s.dist p.sequence ≠ 1 := fun h1 => by
    rw [(seqStepOne_iff p.seq_le hle).mpr h1] at hstep
    exact absurd hstep (by decide)
  -- not old: the way back to `LastIndSeq` is more than half the space
  have hback : circDist seqSpace p.sequence s.entry.lastIndSeq = seqSpace - s.dist p.sequence := by
    have hself : circDist seqSpace s.entry.lastIndSeq s.entry.lastIndSeq < s.dist p.sequence := by
      rw [circDist_self]
      omega
    have := circDist_back (lt_seqSpace hle) (lt_seqSpace p.seq_le) hself
    rw [circDist_self] at this
    exact this
  have hlt : s.dist p.sequence < seqSpace := circDist_lt (lt_seqSpace p.seq_le)
  have hnot : ¬ (1 ≤ seqSpace - s.dist p.sequence ∧ seqSpace - s.dist p.sequence ≤ 2048) := by
    rw [← hback, ← seqSmaller_iff p.seq_le hle, hold]
    decide
  omega

theorem Rx.reorders_ne_reset (h : s.reorders p = true) : s.entry.lastIndSeq ≠ resetRcvSeq := by
  simp only [Rx.reorders, and_eq_true, bne_iff_ne] at h
  exact h.1.1.1

theorem Rx.inside_iff (hle : s.entry.lastIndSeq ≤ maxSeq)
    (hW : s.entry.baWinSize ≤ 64) (hd : s.dist p.sequence ≤ 2047) :
    s.inside p = true ↔ s.dist p.sequence ≤ s.entry.baWinSize := by
  have hspace : seqSpace = 4096 := rfl
  have hend : s.dist ((s.entry.lastIndSeq + s.entry.baWinSize + 1) &&& maxSeq) =
      s.entry.baWinSize + 1 := by
    rw [and_maxSeq, Nat.add_assoc]
    exact circDist_step (lt_seqSpace hle) (by omega)
  unfold Rx.inside
  rw [Rx.seqSmaller_dist hle p.seq_le (and_maxSeq_le _) (by omega) (by omega) (by omega)]
  omega

theorem Rx.outside_dist (hle : s.entry.lastIndSeq ≤ maxSeq)
    (hW : s.entry.baWinSize ≤ 64) (hd : s.dist p.sequence ≤ 2047) (h : s.inside p = false) :
    s.entry.baWinSize < s.dist p.sequence := by
  rw [← Nat.not_le, ← Rx.inside_iff hle hW hd, h]
  decide

theorem winStartSeq_le (sequence baWinSize : Nat) : winStartSeq sequence baWinSize ≤ maxSeq :=
  and_maxSeq_le _

theorem winStartSeq_eq {sequence baWinSize : Nat} (hseq : sequence ≤ maxSeq)
    (hW : baWinSize ≤ 64) : winStartSeq sequence baWinSize =
      if baWinSize ≤ sequence then sequence - baWinSize else sequence + seqSpace - baWinSize := by
  unfold winStartSeq
  rw [and_maxSeq]
  simp only [maxSeq] at hseq
  simp only [seqSpace, maxSeq]
  split <;> split <;> omega

theorem Rx.dist_winStartSeq (hle : s.entry.lastIndSeq ≤ maxSeq)
    (hW : s.entry.baWinSize ≤ 64) (hfar : s.entry.baWinSize < s.dist p.sequence) :
    s.dist (winStartSeq p.sequence s.entry.baWinSize) =
        s.dist p.sequence - s.entry.baWinSize ∧
      circDist seqSpace (winStartSeq p.sequence s.entry.baWinSize) p.sequence =
        s.entry.baWinSize := by
  have hp := p.seq_le
  rw [winStartSeq_eq hp hW]
  simp only [maxSeq] at hp hle
  simp only [Rx.dist, circDist, seqSpace, maxSeq] at hfar ⊢
  split at hfar <;> split <;> (constructor <;> split <;> omega)

/-! ## Queueing a frame -/

section

variable (hs : s.Ok) (hL : s.entry.lastIndSeq ≠ resetRcvSeq) (h1 : 1 ≤ s.dist p.sequence)
  (h2 : s.dist p.sequence ≤ s.entry.baWinSize)

include hs hL h1 h2

/-- **Queueing**: what `ba_enqueue_reordering_packet` does with a frame inside the
    window.  It is put in its place, or refused because it is queued already, or, for
    an EAPOL frame or without a free block, handed up at once. -/
theorem Rx.Ok.enqueue_cases :
    (∃ blk pool l₁ l₂, s.freelist.next = blk :: pool ∧ p.eap = false ∧ p.sequence ∉ s.queued ∧
        s.entry.list.next = l₁ ++ l₂ ∧
        InWindow s.entry.lastIndSeq s.entry.baWinSize (l₁ ++ ⟨blk, p⟩ :: l₂) ∧
        baEnqueueReorderingPacket s p =
          (s.withPool pool).setList ⟨l₁ ++ ⟨blk, p⟩ :: l₂, s.entry.list.qlen + 1⟩) ∨
      (p.sequence ∈ s.queued ∧ baEnqueueReorderingPacket s p = s.releaseNdisPacket p) ∨
      ((p.eap = true ∨ s.freelist.next = []) ∧ ∃ pool ms rest,
        s.entry.list.next = ms ++ rest ∧
        (∀ m ∈ ms, s.dist m.sequence ≤ s.dist p.sequence) ∧
        (∀ m ∈ rest, s.dist p.sequence < s.dist m.sequence) ∧
        baEnqueueReorderingPacket s p =
          (((s.withPool pool).handUpFirst ms rest).setLastIndSeq p.sequence).handUp p) := by
  obtain ⟨hle, hwin⟩ := hs.window hL
  have hW := hs.win.2
  -- the direct branch, from the state with or without a block taken
  have hdirect : ∀ pool, ∃ ms rest, s.entry.list.next = ms ++ rest ∧
      (∀ m ∈ ms, s.dist m.sequence ≤ s.dist p.sequence) ∧
      (∀ m ∈ rest, s.dist p.sequence < s.dist m.sequence) ∧
      ((baIndicateReorderingMpdusLeSeq (s.withPool pool) p.sequence).setLastIndSeq
          p.sequence).handUp p =
        (((s.withPool pool).handUpFirst ms rest).setLastIndSeq p.sequence).handUp p := by
    intro pool
    obtain ⟨ms, rest, hlist, heq, hms, hrest⟩ :=
      (hs.withPool pool).leSeq_spec hL p.seq_le (Nat.le_trans h2 (by omega))
    exact ⟨ms, rest, hlist, hms, hrest, by rw [heq]⟩
  unfold baEnqueueReorderingPacket
  rcases baMpduBlkAlloc_cases hs.counted with ⟨hnil, halloc⟩ | ⟨blk, pool, hcons, halloc⟩
  · have hsame : s.withPool [] = s := by
      rw [Rx.withPool, ← hnil, ← hs.counted.pool]
    obtain ⟨ms, rest, h⟩ := hdirect []
    rw [halloc]
    exact .inr (.inr ⟨.inr hnil, [], ms, rest, hsame ▸ h⟩)
  · rw [halloc]
    cases heap : p.eap with
    | true =>
      simp only [true_eq_false, if_false]
      exact .inr (.inr ⟨.inl trivial, pool, hdirect pool⟩)
    | false =>
      simp only [if_true]
      unfold baReorderingMpduInsertsorted
      by_cases hmem : p.sequence ∈ s.queued
      · have hins := insertScan_dup (m := ⟨blk, p⟩) hle hW hwin h2 hmem
        simp only [Rx.withPool_entry, hins]
        exact .inr (.inl ⟨hmem, baMpduBlkFree_withPool hs.counted hcons p⟩)
      · obtain ⟨l₁, l₂, hlist, hins, hwin', -⟩ :=
          insertScan_new (m := ⟨blk, p⟩) hle hW hwin h1 h2 hmem
        simp only [Rx.withPool_entry, hins]
        exact .inl ⟨blk, pool, l₁, l₂, hcons, trivial, hmem, hlist, hwin', rfl⟩

theorem Rx.Ok.enqueue : (baEnqueueReorderingPacket s p).Ok ∧
      (baEnqueueReorderingPacket s p).entry.lastIndSeq ≠ resetRcvSeq := by
  have hcounted := (baEnqueueReorderingPacket_accounts hs.counted p).counted
  obtain ⟨hle, hwin⟩ := hs.window hL
  rcases hs.enqueue_cases hL h1 h2 with
    ⟨blk, pool, l₁, l₂, -, -, -, -, hwin', heq⟩ | ⟨-, heq⟩ |
    ⟨-, pool, ms, rest, hlist, -, hrest, heq⟩
  · rw [heq] at hcounted ⊢
    exact ⟨Rx.Ok.mk_window hcounted hs.win hle hwin', hL⟩
  · rw [heq]
    exact ⟨hs.releaseNdisPacket p, hL⟩
  · rw [heq]
    refine ⟨Rx.Ok.handUp ?_ p, resetRcvSeq_ne p.seq_le⟩
    exact (hs.withPool pool).handUpFirst hL hlist p.seq_le hrest

end

/-! ## One event -/

theorem Rx.Ok.flushOne (hs : s.Ok) (hL : s.entry.lastIndSeq ≠ resetRcvSeq) (now : BitVec 32) :
    (flushOne s now).Ok := by
  have hle := (hs.window hL).1
  have hnext := and_maxSeq_le (s.entry.lastIndSeq + 1)
  have hd : s.dist ((s.entry.lastIndSeq + 1) &&& maxSeq) = 1 := by
    rw [and_maxSeq]
    exact circDist_step (lt_seqSpace hle) (by decide)
  have hflush := hs.flush hL hnext hnext (by omega) (Nat.le_refl _)
  exact (hflush.setTimer now).continueInOrder (resetRcvSeq_ne hnext)

theorem Rx.Ok.timeout (hs : s.Ok) (now : BitVec 32) : (baFlushReorderingTimeoutMpdus s now).Ok := by
  unfold baFlushReorderingTimeoutMpdus
  split
  · exact hs
  · rename_i hsome
    split
    · exact hs.refresh.setTimer now
    · split
      · -- something is queued, so there is a `LastIndSeq`
        apply hs.flushOne
        intro hreset
        have hnil := hs.reset hreset
        rw [hs.counted.list, hnil] at hsome
        exact hsome (Int.le_refl 0)
      · exact hs

theorem Rx.Ok.idle (hs : s.Ok) (now : BitVec 32) : (baRecSessionIdleTimeout s now).Ok := by
  unfold baRecSessionIdleTimeout
  split
  · exact hs.refresh
  · exact hs

/-- The number before `StartSeq`, where a BAR puts `LastIndSeq`. -/
def seqBefore (startSeq : Nat) : Nat := if startSeq = 0 then maxSeq else startSeq - 1

theorem seqBefore_le {startSeq : Nat} (hseq : startSeq ≤ maxSeq) : seqBefore startSeq ≤ maxSeq := by
  unfold seqBefore
  split <;> omega

theorem Rx.dist_seqBefore {startSeq : Nat} (hle : s.entry.lastIndSeq ≤ maxSeq)
    (hseq : startSeq ≤ maxSeq) (hd : 1 ≤ s.dist startSeq) :
    s.dist (seqBefore startSeq) = s.dist startSeq - 1 := by
  unfold seqBefore
  simp only [Rx.dist, circDist, seqSpace] at hd ⊢
  by_cases h0 : startSeq = 0
  · rw [if_pos h0]
    split at hd <;> split <;> omega
  · rw [if_neg h0]
    split at hd <;> split <;> omega

theorem Rx.Ok.leSeq_reset (hs : s.Ok) (hL : s.entry.lastIndSeq = resetRcvSeq) (seq : Nat) :
    baIndicateReorderingMpdusLeSeq s seq = s := by
  have hlist : s.entry.list = ⟨[], (List.length ([] : List ReorderingMpdu) : Nat)⟩ := by
    rw [hs.counted.list_eq, hs.reset hL]
  unfold baIndicateReorderingMpdusLeSeq
  rw [hlist]
  exact congrArg Prod.fst (indicateWhile_eq _ [] s _ _ hlist) |>.trans (s.handUpFirst_nil hlist)

theorem Rx.Ok.bar (hs : s.Ok) {startSeq : Nat} (hseq : startSeq ≤ maxSeq) :
    (cntlEnqueueForRecv s startSeq).Ok := by
  unfold cntlEnqueueForRecv
  split
  · rename_i hsmaller
    change ((baIndicateReorderingMpdusLeSeq s startSeq).setLastIndSeq (seqBefore startSeq)).Ok
    by_cases hL : s.entry.lastIndSeq = resetRcvSeq
    · rw [hs.leSeq_reset hL]
      exact hs.startAt hL (seqBefore_le hseq)
    · have hle := (hs.window hL).1
      obtain ⟨h1, h2⟩ := (seqSmaller_iff hle hseq).mp hsmaller
      apply hs.flush hL hseq (seqBefore_le hseq) h2
      rw [Rx.dist_seqBefore hle hseq h1]
      exact sub_le _ _
  · exact hs

theorem Rx.Ok.readd (hs : s.Ok) {baWinSize : Nat} (hW : 1 ≤ baWinSize ∧ baWinSize ≤ 64) :
    (s.step (.readd baWinSize hW)).Ok where
  counted := ⟨hs.refresh.counted.list, hs.refresh.counted.pool⟩
  win := hW
  reset := fun _ => hs.refresh.reset (by rw [refresh_eq s hs.counted.list_eq]; rfl)
  window := fun h => absurd rfl h

section

variable (hs : s.Ok) (hL : s.entry.lastIndSeq ≠ resetRcvSeq)
  (hstep : seqStepOne p.sequence s.entry.lastIndSeq = true) (hfresh : p.sequence ∉ s.queued)

include hs hL hstep hfresh

theorem Rx.Ok.inOrder_ahead : ∀ m ∈ s.entry.list.next, s.dist p.sequence < s.dist m.sequence := by
  obtain ⟨hle, hwin⟩ := hs.window hL
  have hd : s.dist p.sequence = 1 := (seqStepOne_iff p.seq_le hle).mp hstep
  intro m hm
  have h1 : 1 ≤ s.dist m.sequence := hwin.ahead m hm
  have hne : s.dist m.sequence ≠ 1 := by
    intro h
    apply hfresh
    rw [circDist_inj (lt_seqSpace hle) (lt_seqSpace p.seq_le) (lt_seqSpace m.sequence_le)
      (hd.trans h.symm)]
    exact mem_map_of_mem hm
  omega

theorem Rx.Ok.inOrder : ((s.setLastIndSeq p.sequence).handUp p).Ok := by
  obtain ⟨hle, hwin⟩ := hs.window hL
  apply Rx.Ok.handUp
  apply hs.setLastIndSeq p.seq_le
  exact hwin.rebase (lt_seqSpace hle) (lt_seqSpace p.seq_le) (hs.inOrder_ahead hL hstep hfresh)

end

theorem Rx.Ok.arrival (hs : s.Ok) (now : BitVec 32)
    (hfresh : seqStepOne p.sequence s.entry.lastIndSeq = true → p.sequence ∉ s.queued) :
    (indicateArrival s now p).Ok := by
  rcases indicateArrival_cases s now p with
    ⟨-, ⟨heq, hreset⟩ | ⟨heq, hL, hstep⟩ | ⟨heq, -, -⟩⟩ | ⟨hyes, ⟨hin, heq⟩ | ⟨hin, heq⟩⟩
  · rw [heq]
    exact ((hs.startAt hreset p.seq_le).setTimer now).handUp p
  · rw [heq]
    exact ((hs.inOrder hL hstep (hfresh hstep)).continueInOrder
      (resetRcvSeq_ne p.seq_le)).setTimer now
  · rw [heq]
    exact hs.drop p
  · have hL := Rx.reorders_ne_reset hyes
    have hle := (hs.window hL).1
    obtain ⟨h2, h2047⟩ := Rx.reorders_dist hle hyes
    rw [heq]
    exact (hs.enqueue hL (by omega) ((Rx.inside_iff hle hs.win.2 h2047).mp hin)).1
  · have hL := Rx.reorders_ne_reset hyes
    have hle := (hs.window hL).1
    obtain ⟨h2, h2047⟩ := Rx.reorders_dist hle hyes
    have hfar := Rx.outside_dist hle hs.win.2 h2047 hin
    obtain ⟨hstart, hback⟩ := Rx.dist_winStartSeq hle hs.win.2 hfar
    have hmax := winStartSeq_le p.sequence s.entry.baWinSize
    -- the window moves up so that the frame is its last place
    have hmove := (hs.flush hL hmax hmax (by omega) (Nat.le_refl _)).setTimer now
    have hsize := leSeq_baWinSize hs.counted (winStartSeq p.sequence s.entry.baWinSize)
    have henq := hmove.enqueue (resetRcvSeq_ne hmax) (p := p)
      (Nat.le_trans hs.win.1 (Nat.le_of_eq hback.symm)) (Nat.le_of_eq (hback.trans hsize.symm))
    rw [heq]
    exact henq.1.continueInOrder henq.2

/-! ## Runs -/

/-- A frame that is next in order is not queued already. -/
def Rx.inOrderFresh (s : Rx) : Event → Prop
  | .arrival _ _ p => p.oversize = false →
      seqStepOne p.sequence s.entry.lastIndSeq = true → p.sequence ∉ s.queued
  | _ => True

instance instDecidableInOrderFresh (s : Rx) : (e : Event) → Decidable (s.inOrderFresh e)
  | .arrival _ _ p => inferInstanceAs (Decidable (p.oversize = false →
      seqStepOne p.sequence s.entry.lastIndSeq = true → p.sequence ∉ s.queued))
  | .timeout _ => isTrue trivial
  | .bar _ _ => isTrue trivial
  | .idle _ => isTrue trivial
  | .readd _ _ => isTrue trivial

/-- **Step**: every event keeps the invariant. -/
theorem Rx.Ok.step (hs : s.Ok) (e : Event) (he : s.inOrderFresh e) : (s.step e).Ok := by
  cases e with
  | timeout now => exact hs.timeout now
  | arrival now pool p =>
    rw [Rx.step_arrival]
    split
    · exact hs.releaseNdisPacket p
    · rename_i hsize
      exact ((hs.withPool pool).setTimer now).arrival now (he (eq_false_iff.mpr hsize))
  | bar startSeq hseq => exact hs.bar hseq
  | idle now => exact hs.idle now
  | readd baWinSize hW => exact hs.readd hW

/-- The frames an event brings. -/
def Event.given : Event → List RxBlk
  | .arrival _ _ p => [p]
  | _ => []

theorem Rx.step_frames (hs : s.Counted) (e : Event) :
    (s.step e).frames.Perm (s.frames ++ e.given) := by
  cases e with
  | timeout now => exact (baFlushReorderingTimeoutMpdus_accounts hs now).frames
  | arrival now pool p =>
    rw [Rx.step_arrival]
    split
    · exact (releaseNdisPacket_accounts hs p).frames
    · have hs' : ((s.withPool pool).setTimer now).Counted := ⟨hs.list, rfl⟩
      obtain ⟨lost, h, -⟩ := indicateArrival_accounts hs' now p
      exact h.frames
  | bar startSeq hseq => exact (cntlEnqueueForRecv_accounts hs startSeq).frames
  | idle now => exact (baRecSessionIdleTimeout_accounts hs now).frames
  | readd baWinSize hW => exact (refresh_accounts hs).frames

end

/-- What the reorder buffer promises: the queued numbers are sorted along the circle
    without repetition, lie behind `LastIndSeq` within the window, and are counted. -/
structure Rx.Buffered (s : Rx) : Prop where
  sorted : s.queued.Pairwise fun a b => seqSmaller a b = true
  nodup : s.queued.Nodup
  window : ∀ seq ∈ s.queued, ∃ k, 1 ≤ k ∧ k ≤ s.entry.baWinSize ∧
    seq = (s.entry.lastIndSeq + k) % seqSpace
  count : s.entry.list.qlen = s.queued.length
  bound : s.queued.length ≤ s.entry.baWinSize
  reset : s.entry.lastIndSeq = resetRcvSeq → s.queued = []

theorem Rx.Ok.buffered {s : Rx} (hs : s.Ok) : s.Buffered := by
  by_cases hL : s.entry.lastIndSeq = resetRcvSeq
  · have hnil : s.queued = [] := by
      rw [Rx.queued, hs.reset hL, map_nil]
    constructor
    · rw [hnil]
      exact .nil
    · rw [hnil]
      exact .nil
    · simp [hnil]
    · rw [hs.counted.list, Rx.queued, length_map]
    · simp [hnil]
    · exact fun _ => hnil
  · obtain ⟨hle, hwin⟩ := hs.window hL
    have hW := hs.win.2
    constructor
    · rw [Rx.queued, pairwise_map]
      refine hwin.sorted.imp_of_mem ?_
      intro x y hx hy hxy
      have hxW := hwin.within x hx
      have hyW := hwin.within y hy
      exact (seqSmaller_window hle x.sequence_le y.sequence_le (by omega) (by omega)
        (by omega)).mpr hxy
    · exact hwin.nodup
    · intro seq hseq
      obtain ⟨m, hm, rfl⟩ := mem_map.mp hseq
      refine ⟨s.dist m.sequence, hwin.ahead m hm, hwin.within m hm, ?_⟩
      -- the number at this distance is unique
      apply circDist_inj (lt_seqSpace hle) (lt_seqSpace m.sequence_le) (mod_lt _ (by decide))
      exact (circDist_step (lt_seqSpace hle) (circDist_lt (lt_seqSpace m.sequence_le))).symm
    · rw [hs.counted.list, Rx.queued, length_map]
    · rw [Rx.queued, length_map]
      exact hwin.length_le
    · exact fun h => absurd h hL

/-- A session as `BARecSessionAdd` sets it up, on a free slot. -/
def Rx.start (e : BaRecEntry) (wcid tid baWinSize : Nat) : Rx where
  entry := recEntryFill { e with list := ⟨[], 0⟩ } wcid tid baWinSize
  freelist := ⟨[], 0⟩
  up := []
  released := []

theorem Rx.Ok.start (e : BaRecEntry) (wcid tid : Nat) {baWinSize : Nat}
    (hW : 1 ≤ baWinSize ∧ baWinSize ≤ 64) : (Rx.start e wcid tid baWinSize).Ok :=
  ⟨⟨rfl, rfl⟩, hW, fun _ => rfl, fun h => absurd rfl h⟩

theorem Rx.run_frames {s : Rx} (hs : s.Ok) {es : List Event}
    (hrun : Along Rx.step Rx.inOrderFresh s es) :
    (runEvents Rx.step s es).frames.Perm (s.frames ++ es.flatMap Event.given) := by
  induction es generalizing s with
  | nil => simp
  | cons e es ih =>
    obtain ⟨he, hrest⟩ := hrun
    rw [runEvents_cons, flatMap_cons, ← append_assoc]
    exact (ih (hs.step e he) hrest).trans ((Rx.step_frames hs.counted e).append_right _)

/-- **The reorder buffer**: in every run in which no frame that is next in order is
    queued already, the buffer keeps its promise and every frame given is in exactly
    one place. -/
theorem reorder_buffer_run (e : BaRecEntry) (wcid tid baWinSize : Nat)
    (hW : 1 ≤ baWinSize ∧ baWinSize ≤ 64) (es : List Event)
    (hrun : Along Rx.step Rx.inOrderFresh (Rx.start e wcid tid baWinSize) es) :
    (runEvents Rx.step (Rx.start e wcid tid baWinSize) es).Buffered ∧
      (runEvents Rx.step (Rx.start e wcid tid baWinSize) es).frames.Perm
        (es.flatMap Event.given) := by
  have hok := Rx.Ok.start e wcid tid hW
  constructor
  · exact (hrun.invariant (fun s e hs he => Rx.Ok.step hs e he) hok).buffered
  · exact Rx.run_frames hok hrun

/-! ### Two runs -/

def dataFrame (sequence : Fin seqSpace) (tag : Nat) : RxBlk :=
  ⟨sequence, le_maxSeq_of_fin sequence, false, false, 100, tag⟩

def eapolFrame (sequence : Fin seqSpace) (tag : Nat) : RxBlk :=
  ⟨sequence, le_maxSeq_of_fin sequence, true, false, 100, tag⟩

/-- A slot of the table before it is first used. -/
def zeroSlot : BaRecEntry := ⟨0, 0, 0, 0, 0#32, 0, .none, ⟨[], 0⟩⟩

/-- `Indicate_AMPDU_Packet` at tick 0 with two free blocks. -/
def packetAtZero (p : RxBlk) : List Event := [.timeout 0#32, .arrival 0#32 [1, 2] p]

/-- 13 is queued behind a gap; EAPOL frame 12 moves `LastIndSeq` next to it but does
    not go on with 13; a retransmission of 13 is taken as in order and leaves the
    first copy in the list, behind the window. -/
def staleRun : List Event :=
  packetAtZero (dataFrame 10 0) ++ packetAtZero (dataFrame 13 1) ++
    packetAtZero (eapolFrame 12 2) ++ packetAtZero (dataFrame 13 3)

theorem stale_frame_queued :
    ¬ ∀ (e : BaRecEntry) (wcid tid baWinSize : Nat), 1 ≤ baWinSize ∧ baWinSize ≤ 64 →
      ∀ es : List Event, (runEvents Rx.step (Rx.start e wcid tid baWinSize) es).Buffered ∧
        (runEvents Rx.step (Rx.start e wcid tid baWinSize) es).frames.Perm
          (es.flatMap Event.given) := by
  intro hall
  have hbuf := (hall zeroSlot 1 0 8 (by decide) staleRun).1
  have hqueued : (runEvents Rx.step (Rx.start zeroSlot 1 0 8) staleRun).queued = [13] := by decide
  have hlast : (runEvents Rx.step (Rx.start zeroSlot 1 0 8) staleRun).entry.lastIndSeq = 13 := by
    decide
  have hsize : (runEvents Rx.step (Rx.start zeroSlot 1 0 8) staleRun).entry.baWinSize = 8 := by
    decide
  obtain ⟨k, h1, h2, h⟩ := hbuf.window 13 (by rw [hqueued]; exact List.mem_singleton_self 13)
  rw [hlast, show seqSpace = 4096 from rfl] at h
  rw [hsize] at h2
  omega

/-- 12 waits for 11, then both go up. -/
theorem reorder_buffer_gap_closed : (runEvents Rx.step (Rx.start zeroSlot 1 0 8)
        (packetAtZero (dataFrame 10 0) ++ packetAtZero (dataFrame 12 1) ++
          packetAtZero (dataFrame 11 2))).Buffered ∧
      (runEvents Rx.step (Rx.start zeroSlot 1 0 8)
        (packetAtZero (dataFrame 10 0) ++ packetAtZero (dataFrame 12 1) ++
          packetAtZero (dataFrame 11 2))).frames.Perm
        [dataFrame 10 0, dataFrame 12 1, dataFrame 11 2] :=
  reorder_buffer_run zeroSlot 1 0 8 (by decide)
    (packetAtZero (dataFrame 10 0) ++ packetAtZero (dataFrame 12 1) ++
      packetAtZero (dataFrame 11 2)) (by decide)

end RalinkSdk.BlockAck
