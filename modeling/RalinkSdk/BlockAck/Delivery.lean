import RalinkSdk.BlockAck.ReorderInv

/-!
# In-order delivery

A session hands frames up out of the front of its list, and a frame that arrives is
put into the list, handed up at once or dropped.  So what was handed up, followed by
what is queued, is one line of frames, and handing up queued frames does not change
it: `Rx.handUpFirst_line`.  Only an arrival puts a frame into the line.
-/

namespace RalinkSdk.BlockAck

open Lib List Option

/-! ## The line -/

/-- The numbers handed up so far. -/
def Rx.delivered (s : Rx) : List Nat := s.up.map (·.sequence)

/-- What was handed up and, behind it, what is queued. -/
def Rx.line (s : Rx) : List Nat := s.delivered ++ s.queued

/-- Each number is `SEQ_SMALLER` than the next. -/
def InLine (l : List Nat) : Prop := l.IsChain fun a b => seqSmaller a b = true

theorem Rx.handUpFirst_line {s : Rx} {ms rest : List ReorderingMpdu}
    (hlist : s.entry.list.next = ms ++ rest) : (s.handUpFirst ms rest).line = s.line := by
  simp only [Rx.line, Rx.delivered, Rx.queued, Rx.handUpFirst, hlist, map_append,
    List.map_map, append_assoc]
  rfl

theorem InLine.insert {l₁ l₂ : List Nat} {seq : Nat} (h : InLine (l₁ ++ l₂))
    (hbefore : ∀ a ∈ l₁.getLast?, seqSmaller a seq = true)
    (hafter : ∀ b ∈ l₂.head?, seqSmaller seq b = true) : InLine (l₁ ++ seq :: l₂) := by
  obtain ⟨h₁, h₂, -⟩ := isChain_append.mp h
  refine isChain_append.mpr ⟨h₁, isChain_cons.mpr ⟨hafter, h₂⟩, ?_⟩
  intro a ha b hb
  rw [head?_cons, mem_some_iff] at hb
  exact hb ▸ hbefore a ha

/-! ## The invariant -/

def Rx.lastUp (s : Rx) : Option Nat := s.delivered.getLast?

/-- The line is in order, `LastIndSeq` is less than half the space past the last
    frame handed up, and before there is a `LastIndSeq` nothing was handed up. -/
structure Rx.Follows (s : Rx) : Prop where
  ok : s.Ok
  line : InLine s.line
  gap : s.entry.lastIndSeq ≠ resetRcvSeq →
    ∀ d ∈ s.lastUp, circDist seqSpace d s.entry.lastIndSeq ≤ 2047
  first : s.entry.lastIndSeq = resetRcvSeq → s.up = []

theorem Rx.lastUp_le {s : Rx} {d : Nat} (hd : d ∈ s.lastUp) : d ≤ maxSeq := by
  obtain ⟨p, -, rfl⟩ := mem_map.mp (mem_of_getLast? hd)
  exact p.seq_le

theorem Rx.lastUp_handUpFirst {s : Rx} {ms : List ReorderingMpdu} (rest : List ReorderingMpdu)
    {d : Nat} (hd : d ∈ (s.handUpFirst ms rest).lastUp) :
    (ms = [] ∧ d ∈ s.lastUp) ∨ ∃ m ∈ ms, m.sequence = d := by
  have hd' : d ∈ (s.delivered ++ ms.map (·.sequence)).getLast? := by
    simpa [Rx.lastUp, Rx.delivered, Rx.handUpFirst, Function.comp_def, ReorderingMpdu.sequence]
      using hd
  cases hcase : ms.getLast? with
  | none =>
    have hnil := getLast?_eq_none_iff.mp hcase
    rw [hnil, map_nil, append_nil] at hd'
    exact .inl ⟨hnil, hd'⟩
  | some m =>
    rw [getLast?_append, getLast?_map, hcase, map_some, some_or, mem_some_iff] at hd'
    exact .inr ⟨m, mem_of_getLast? hcase, hd'⟩

/-- `seq` is at most half the sequence space ahead of `d`. -/
def notBeyond (d seq : Nat) : Bool := d == seq || seqSmaller d seq

theorem notBeyond_iff {d seq : Nat} (hd : d ≤ maxSeq) (hseq : seq ≤ maxSeq) :
    notBeyond d seq = true ↔ circDist seqSpace d seq ≤ 2048 := by
  rw [notBeyond, Bool.or_eq_true, beq_iff_eq, seqSmaller_iff hd hseq]
  constructor
  · rintro (rfl | h)
    · simp
    · exact h.2
  · intro h
    by_cases h0 : circDist seqSpace d seq = 0
    · exact .inl (circDist_eq_zero (lt_seqSpace hd) h0)
    · exact .inr ⟨Nat.one_le_iff_ne_zero.mpr h0, h⟩

/-- If nothing queued comes before `seq`, then it is within half the space of the
    last frame handed up. -/
def Rx.leads (s : Rx) (seq : Nat) : Prop :=
  (∀ m ∈ s.queued, seqSmaller m seq = false) → ∀ d ∈ s.lastUp, notBeyond d seq = true

section

variable {s : Rx}

section

variable (hs : s.Follows) (hL : s.entry.lastIndSeq ≠ resetRcvSeq)

include hs hL

theorem Rx.Follows.dist_lastUp {d : Nat} (hd : d ∈ s.lastUp) {seq : Nat}
    (hnear : s.dist seq ≤ 2048) :
    circDist seqSpace d seq = circDist seqSpace d s.entry.lastIndSeq + s.dist seq := by
  have hgap := hs.gap hL d hd
  have hspace : seqSpace = 4096 := rfl
  exact circDist_add (lt_seqSpace (Rx.lastUp_le hd)) (lt_seqSpace (hs.ok.window hL).1)
    (by change _ + s.dist seq < _; omega)

theorem Rx.Follows.head_near {d : Nat} (hd : d ∈ s.lastUp) {m : ReorderingMpdu}
    {rest : List ReorderingMpdu} (hlist : s.entry.list.next = m :: rest) :
    circDist seqSpace d s.entry.lastIndSeq + s.dist m.sequence ≤ 2048 := by
  have hwin := (hs.ok.window hL).2.within m (hlist ▸ mem_cons_self ..)
  have hW := hs.ok.win.2
  have hdm : seqSmaller d m.sequence = true := by
    refine (isChain_append.mp hs.line).2.2 d hd m.sequence ?_
    rw [Rx.queued, hlist]
    rfl
  have h2048 := ((seqSmaller_iff (Rx.lastUp_le hd) m.sequence_le).mp hdm).2
  rw [hs.dist_lastUp hL hd (Nat.le_trans hwin (by omega))] at h2048
  exact h2048

theorem Rx.Follows.room {o : Nat} (hfar : ∀ m ∈ s.entry.list.next, o < s.dist m.sequence)
    (hempty : s.entry.list.next = [] → ∀ d ∈ s.lastUp,
      circDist seqSpace d s.entry.lastIndSeq + o ≤ 2047) :
    ∀ d ∈ s.lastUp, circDist seqSpace d s.entry.lastIndSeq + o ≤ 2047 := by
  intro d hd
  cases hl : s.entry.list.next with
  | nil => exact hempty hl d hd
  | cons m l =>
    have hnear := hs.head_near hL hd hl
    have hm := hfar m (hl ▸ mem_cons_self ..)
    omega

theorem Rx.Follows.room_of_leads {o seq : Nat} (hseq : seq ≤ maxSeq) (ho : o < s.dist seq)
    (hd : s.dist seq ≤ 2048) (hlead : s.leads seq) (hnil : s.entry.list.next = []) :
    ∀ d ∈ s.lastUp, circDist seqSpace d s.entry.lastIndSeq + o ≤ 2047 := by
  intro d hmem
  have hnone : ∀ m ∈ s.queued, seqSmaller m seq = false := by simp [Rx.queued, hnil]
  have hle := (notBeyond_iff (Rx.lastUp_le hmem) hseq).mp (hlead hnone d hmem)
  rw [hs.dist_lastUp hL hmem hd] at hle
  omega

/-- **Moving on**: the frames `ms` at the front of the list are handed up and
    `LastIndSeq` moves past them to `last`.  If none is handed up, `last` must stay
    within half the space of the frame handed up before. -/
theorem Rx.Follows.moveOn {ms rest : List ReorderingMpdu} (hlist : s.entry.list.next = ms ++ rest)
    {last : Nat} (hlast : last ≤ maxSeq) (hok : ((s.handUpFirst ms rest).setLastIndSeq last).Ok)
    (hd : s.dist last ≤ 2047) (hms : ∀ m ∈ ms, s.dist m.sequence ≤ s.dist last)
    (hnone : ms = [] → ∀ d ∈ s.lastUp,
      circDist seqSpace d s.entry.lastIndSeq + s.dist last ≤ 2047) :
    ((s.handUpFirst ms rest).setLastIndSeq last).Follows where
  ok := hok
  line := by
    change InLine (s.handUpFirst ms rest).line
    rw [Rx.handUpFirst_line hlist]
    exact hs.line
  gap := by
    intro _ d hmem
    change circDist seqSpace d last ≤ 2047
    rcases Rx.lastUp_handUpFirst rest hmem with ⟨hnil, hup⟩ | ⟨m, hm, rfl⟩
    -- nothing was handed up: the distance grows by the move
    · rw [hs.dist_lastUp hL hup (by omega)]
      exact hnone hnil d hup
    · -- the way from `m` to `last` is part of the way from `LastIndSeq`
      have hsub := circDist_sub (lt_seqSpace (hs.ok.window hL).1) (lt_seqSpace m.sequence_le)
        (lt_seqSpace hlast) (hms m hm)
      rw [hsub]
      exact Nat.le_trans (Nat.sub_le _ _) hd
  first := fun h => absurd h (resetRcvSeq_ne hlast)

theorem Rx.Follows.continueInOrder : (continueInOrder s).Follows := by
  have hok := hs.ok.continueInOrder hL
  obtain ⟨hle, hwin⟩ := hs.ok.window hL
  have hW := hs.ok.win.2
  obtain ⟨ms, rest, last, hlist, heq, hlast, hd, hms, -, -⟩ :=
    continueInOrder_spec s hs.ok.counted.list_eq hle hW hwin
  -- each frame handed up moves `LastIndSeq` by one
  have hlen : ms.length ≤ s.entry.baWinSize := by
    have hfits := hwin.length_le
    rw [hlist, length_append] at hfits
    omega
  rw [heq] at hok ⊢
  have hd' : s.dist last = ms.length := hd
  apply hs.moveOn hL hlist hlast hok
  · omega
  · rw [hd']
    exact hms
  · intro hnil d hmem
    have hgap := hs.gap hL d hmem
    rw [hd', hnil, length_nil]
    exact hgap

/-! ## Arrivals -/

/-- **Stepping in**: a frame ahead of `LastIndSeq` fits into the line at its place
    in the list. -/
theorem Rx.Follows.stepIn {l₁ l₂ : List ReorderingMpdu} (hlist : s.entry.list.next = l₁ ++ l₂)
    {p : RxBlk} (h1 : 1 ≤ s.dist p.sequence) (h2 : s.dist p.sequence ≤ 2047)
    (hbefore : ∀ m ∈ l₁, s.dist m.sequence < s.dist p.sequence)
    (hafter : ∀ m ∈ l₂, s.dist p.sequence < s.dist m.sequence) (hlead : s.leads p.sequence) :
    InLine (s.delivered ++ l₁.map (·.sequence) ++ p.sequence :: l₂.map (·.sequence)) := by
  obtain ⟨hle, hwin⟩ := hs.ok.window hL
  have hW := hs.ok.win.2
  have hnear : ∀ m ∈ l₁ ++ l₂, s.dist m.sequence ≤ 64 := by
    intro m hm
    exact Nat.le_trans (hwin.within m (hlist ▸ hm)) hW
  have hline : InLine (s.delivered ++ l₁.map (·.sequence) ++ l₂.map (·.sequence)) := by
    have := hs.line
    rwa [Rx.line, Rx.queued, hlist, map_append, ← append_assoc] at this
  apply hline.insert
  · intro a ha
    cases hcase : l₁.getLast? with
    | some m =>
      -- behind the last queued frame that is nearer
      rw [getLast?_append, getLast?_map, hcase, map_some, some_or, mem_some_iff] at ha
      have hm := mem_of_getLast? hcase
      have hlt := hbefore m hm
      rw [← ha]
      exact (Rx.seqSmaller_dist hle m.sequence_le p.seq_le (by omega) (by omega) (by omega)).mpr hlt
    | none =>
      -- first of the list: behind the last frame handed up
      have hnil := getLast?_eq_none_iff.mp hcase
      rw [hnil, map_nil, append_nil] at ha
      have hfirst : ∀ m ∈ s.queued, seqSmaller m p.sequence = false := by
        intro seq hseq
        obtain ⟨m, hm, rfl⟩ := mem_map.mp hseq
        rw [hlist, hnil, nil_append] at hm
        have hlt := hafter m hm
        have h64 := hnear m (mem_append_right _ hm)
        rw [Bool.eq_false_iff, ne_eq, Rx.seqSmaller_dist hle m.sequence_le p.seq_le (by omega)
          (by omega) (by omega)]
        exact Nat.not_lt.mpr (Nat.le_of_lt hlt)
      have hda := Rx.lastUp_le ha
      rw [seqSmaller_iff hda p.seq_le]
      refine ⟨?_, (notBeyond_iff hda p.seq_le).mp (hlead hfirst a ha)⟩
      rw [hs.dist_lastUp hL ha (by omega)]
      omega
  · intro b hb
    rw [head?_map, mem_def, map_eq_some_iff] at hb
    obtain ⟨m, hm, rfl⟩ := hb
    have hmem := mem_of_head? hm
    have hlt := hafter m hmem
    have h64 := hnear m (mem_append_right _ hmem)
    exact (Rx.seqSmaller_dist hle p.seq_le m.sequence_le (by omega) (by omega) (by omega)).mpr hlt

end

theorem Rx.Follows.of_eq {s' : Rx} (hs : s.Follows) (hok : s'.Ok)
    (hseq : s'.entry.lastIndSeq = s.entry.lastIndSeq) (hlist : s'.entry.list = s.entry.list)
    (hup : s'.up = s.up) : s'.Follows where
  ok := hok
  line := by
    have hsame : s'.line = s.line := by
      rw [Rx.line, Rx.line, Rx.delivered, Rx.delivered, Rx.queued, Rx.queued, hlist, hup]
    rw [hsame]
    exact hs.line
  gap := by
    rw [hseq, Rx.lastUp, Rx.delivered, hup]
    exact hs.gap
  first := by
    rw [hseq, hup]
    exact hs.first

theorem Rx.Follows.setTimer (hs : s.Follows) (now : BitVec 32) : (s.setTimer now).Follows :=
  hs.of_eq (hs.ok.setTimer now) rfl rfl rfl

theorem Rx.Follows.withPool (hs : s.Follows) (pool : List Nat) : (s.withPool pool).Follows :=
  hs.of_eq (hs.ok.withPool pool) rfl rfl rfl

theorem Rx.Follows.of_handUp {p : RxBlk} (hok : ((s.setLastIndSeq p.sequence).handUp p).Ok)
    (hline : InLine (s.delivered ++ p.sequence :: s.queued)) :
    ((s.setLastIndSeq p.sequence).handUp p).Follows where
  ok := hok
  line := by
    have hsame : ((s.setLastIndSeq p.sequence).handUp p).line =
        s.delivered ++ p.sequence :: s.queued := by
      simp only [Rx.line, Rx.delivered, Rx.handUp, Rx.setLastIndSeq, map_append,
        map_cons, map_nil, append_assoc, singleton_append]
      rfl
    rw [hsame]
    exact hline
  gap := by
    intro _ d hd
    -- the frame itself is the last one handed up
    have hlast : ((s.setLastIndSeq p.sequence).handUp p).lastUp = some p.sequence := by
      simp [Rx.lastUp, Rx.delivered, Rx.handUp]
    rw [hlast, mem_some_iff] at hd
    rw [← hd]
    exact Nat.le_trans (Nat.le_of_eq (circDist_self _ _)) (by decide)
  first := fun h => absurd h (resetRcvSeq_ne p.seq_le)

variable (hs : s.Follows)

include hs

theorem Rx.Follows.inOrder (hL : s.entry.lastIndSeq ≠ resetRcvSeq) {p : RxBlk}
    (hstep : seqStepOne p.sequence s.entry.lastIndSeq = true) (hfresh : p.sequence ∉ s.queued)
    (hlead : s.leads p.sequence) : ((s.setLastIndSeq p.sequence).handUp p).Follows := by
  obtain ⟨hle, hwin⟩ := hs.ok.window hL
  have hd : s.dist p.sequence = 1 := (seqStepOne_iff p.seq_le hle).mp hstep
  apply Rx.Follows.of_handUp (hs.ok.inOrder hL hstep hfresh)
  have hline := hs.stepIn hL (nil_append _).symm (p := p) (by omega) (by omega) (by simp)
    (fun m hm => hs.ok.inOrder_ahead hL hstep hfresh m hm) hlead
  simpa [Rx.queued] using hline

theorem Rx.Follows.enqueue (hL : s.entry.lastIndSeq ≠ resetRcvSeq) {p : RxBlk}
    (h1 : 1 ≤ s.dist p.sequence) (h2 : s.dist p.sequence ≤ s.entry.baWinSize)
    (hfresh : p.eap = true ∨ s.freelist.next = [] → p.sequence ∉ s.queued)
    (hlead : s.leads p.sequence) : (baEnqueueReorderingPacket s p).Follows := by
  have hok := (hs.ok.enqueue hL h1 h2).1
  have hle := (hs.ok.window hL).1
  have hW := hs.ok.win.2
  rcases hs.ok.enqueue_cases hL h1 h2 with
    ⟨blk, pool, l₁, l₂, -, -, -, hlist, hwin, heq⟩ | ⟨-, heq⟩ |
    ⟨hdirect, pool, ms, rest, hlist, hms, hrest, heq⟩
  · rw [heq] at hok ⊢
    obtain ⟨-, hcons, hcross⟩ := pairwise_append.mp hwin.sorted
    have hline := hs.stepIn hL hlist h1 (by omega)
      (fun m hm => hcross m hm _ (mem_cons_self ..))
      (fun m hm => (pairwise_cons.mp hcons).1 m hm) hlead
    refine ⟨hok, ?_, hs.gap, hs.first⟩
    simpa [Rx.line, Rx.delivered, Rx.queued, Rx.setList, Rx.withPool, ReorderingMpdu.sequence]
      using hline
  · rw [heq] at hok ⊢
    exact hs.of_eq hok rfl rfl rfl
  · rw [heq] at hok ⊢
    -- the frames before it go up first, then the frame itself
    have hne := hfresh hdirect
    have hstrict : ∀ m ∈ ms, s.dist m.sequence < s.dist p.sequence := by
      intro m hm
      refine Nat.lt_of_le_of_ne (hms m hm) fun hsame => hne ?_
      rw [← circDist_inj (lt_seqSpace hle) (lt_seqSpace m.sequence_le) (lt_seqSpace p.seq_le) hsame]
      exact mem_map_of_mem (hlist ▸ mem_append_left _ hm)
    have hline := hs.stepIn hL hlist h1 (by omega) hstrict hrest hlead
    apply Rx.Follows.of_handUp hok
    simpa [Rx.delivered, Rx.queued, Rx.handUpFirst, Rx.withPool, Function.comp_def,
      ReorderingMpdu.sequence] using hline

/-- **Window move**: case V hands up to the new start of the window. -/
theorem Rx.Follows.moveWindow {p : RxBlk} (hyes : s.reorders p = true) (hin : s.inside p = false)
    (now : BitVec 32) (hlead : s.leads p.sequence) :
    (((baIndicateReorderingMpdusLeSeq s (winStartSeq p.sequence s.entry.baWinSize)).setLastIndSeq
        (winStartSeq p.sequence s.entry.baWinSize)).setTimer now).Follows ∧
      (((baIndicateReorderingMpdusLeSeq s (winStartSeq p.sequence s.entry.baWinSize)).setLastIndSeq
        (winStartSeq p.sequence s.entry.baWinSize)).setTimer now).leads p.sequence ∧
      p.sequence ∉ (baIndicateReorderingMpdusLeSeq s
        (winStartSeq p.sequence s.entry.baWinSize)).queued := by
  have hL := Rx.reorders_ne_reset hyes
  obtain ⟨hle, hwin⟩ := hs.ok.window hL
  have hW := hs.ok.win
  obtain ⟨h2, h2047⟩ := Rx.reorders_dist hle hyes
  have hfar := Rx.outside_dist hle hW.2 h2047 hin
  obtain ⟨hstart, hback⟩ := Rx.dist_winStartSeq hle hW.2 hfar
  have hmax := winStartSeq_le p.sequence s.entry.baWinSize
  have hok := hs.ok.flush hL hmax hmax (by omega) (Nat.le_refl _)
  obtain ⟨ms, rest, hlist, heq, hms, hrest⟩ := hs.ok.leSeq_spec hL hmax (by omega)
  rw [heq] at hok ⊢
  -- everything queued comes before the frame
  have hbefore : ∀ m ∈ s.entry.list.next, s.dist m.sequence < s.dist p.sequence := fun m hm =>
    Nat.lt_of_le_of_lt (hwin.within m hm) hfar
  have hsmaller : ∀ m ∈ s.entry.list.next, seqSmaller m.sequence p.sequence = true := by
    intro m hm
    have hlt := hbefore m hm
    exact (Rx.seqSmaller_dist hle m.sequence_le p.seq_le (by omega) (by omega) (by omega)).mpr hlt
  -- and if nothing is queued, the frame itself must be near
  have hempty : s.entry.list.next = [] → ∀ d ∈ s.lastUp, notBeyond d p.sequence = true := by
    intro hnil
    apply hlead
    simp [Rx.queued, hnil]
  refine ⟨(hs.moveOn hL hlist hmax hok (by omega) hms ?_).setTimer now, ?_, ?_⟩
  · intro hnil
    rw [hnil, nil_append] at hlist
    exact hs.room hL (hlist ▸ hrest)
      (hs.room_of_leads hL p.seq_le (by omega) (by omega) hlead)
  · intro hnone d hd
    have hrestnil : rest = [] := by
      apply eq_nil_iff_forall_not_mem.mpr
      intro m hm
      have hsm := hsmaller m (hlist ▸ mem_append_right _ hm)
      rw [hnone m.sequence (mem_map_of_mem hm)] at hsm
      exact absurd hsm (by decide)
    rcases Rx.lastUp_handUpFirst rest hd with ⟨hnil, hup⟩ | ⟨m, hm, rfl⟩
    · exact hempty (by rw [hlist, hnil, hrestnil, nil_append]) d hup
    · rw [notBeyond, hsmaller m (hlist ▸ mem_append_left _ hm), Bool.or_true]
  · intro hmem
    obtain ⟨m, hm, hseq⟩ := mem_map.mp hmem
    have hlt := hbefore m (hlist ▸ mem_append_right _ hm)
    rw [hseq] at hlt
    exact absurd hlt (Nat.lt_irrefl _)

/-! ## One event -/

/-- The condition on an arriving frame that is accepted: it is within half the space
    of the last frame handed up unless queued frames come first, and it is no copy of
    a queued frame if it is handed up past the list. -/
def Rx.arrivalInLine (s : Rx) (pool : List Nat) (p : RxBlk) : Prop :=
  seqStepOne p.sequence s.entry.lastIndSeq = true ∨ s.reorders p = true →
    s.leads p.sequence ∧
      (seqStepOne p.sequence s.entry.lastIndSeq = true ∨ p.eap = true ∨ pool = [] →
        p.sequence ∉ s.queued)

/-- The condition on a BAR that moves `LastIndSeq`: `StartSeq` is within half the
    space of the last frame handed up unless queued frames come first, and it is not
    queued itself. -/
def Rx.barInLine (s : Rx) (startSeq : Nat) : Prop :=
  seqSmaller s.entry.lastIndSeq startSeq = true → s.leads startSeq ∧ startSeq ∉ s.queued

theorem Rx.Follows.arrival (now : BitVec 32) {p : RxBlk}
    (hline : s.entry.lastIndSeq ≠ resetRcvSeq → s.arrivalInLine s.freelist.next p) :
    (indicateArrival s now p).Follows := by
  rcases indicateArrival_cases s now p with
    ⟨-, ⟨heq, hreset⟩ | ⟨heq, hL, hstep⟩ | ⟨heq, -, -⟩⟩ | ⟨hyes, ⟨hin, heq⟩ | ⟨hin, heq⟩⟩
  · rw [heq]
    -- the first frame of the sequence
    have hok := (hs.ok.startAt hreset p.seq_le).handUp p
    have hempty : InLine (s.delivered ++ p.sequence :: s.queued) := by
      rw [Rx.delivered, Rx.queued, hs.first hreset, hs.ok.reset hreset]
      exact isChain_singleton _
    exact (Rx.Follows.of_handUp hok hempty).setTimer now
  · rw [heq]
    -- the next frame in order
    obtain ⟨hlead, hfresh⟩ := hline hL (.inl hstep)
    exact ((hs.inOrder hL hstep (hfresh (.inl hstep)) hlead).continueInOrder
      (resetRcvSeq_ne p.seq_le)).setTimer now
  · rw [heq]
    exact hs.of_eq (hs.ok.drop p) rfl rfl rfl
  · have hL := Rx.reorders_ne_reset hyes
    have hle := (hs.ok.window hL).1
    obtain ⟨h2, h2047⟩ := Rx.reorders_dist hle hyes
    obtain ⟨hlead, hfresh⟩ := hline hL (.inr hyes)
    rw [heq]
    exact hs.enqueue hL (by omega) ((Rx.inside_iff hle hs.ok.win.2 h2047).mp hin)
      (fun h => hfresh (.inr h)) hlead
  · have hL := Rx.reorders_ne_reset hyes
    have hle := (hs.ok.window hL).1
    obtain ⟨h2, h2047⟩ := Rx.reorders_dist hle hyes
    obtain ⟨hlead, -⟩ := hline hL (.inr hyes)
    -- beyond the window: the window moves first, and the frame is its last place then
    have hfar := Rx.outside_dist hle hs.ok.win.2 h2047 hin
    obtain ⟨-, hback⟩ := Rx.dist_winStartSeq hle hs.ok.win.2 hfar
    have hmax := winStartSeq_le p.sequence s.entry.baWinSize
    obtain ⟨hmove, hlead', hfresh'⟩ := hs.moveWindow hyes hin now hlead
    have hsize := leSeq_baWinSize hs.ok.counted (winStartSeq p.sequence s.entry.baWinSize)
    have h1 := Nat.le_trans hs.ok.win.1 (Nat.le_of_eq hback.symm)
    have h2 := Nat.le_of_eq (hback.trans hsize.symm)
    have henq := hmove.enqueue (resetRcvSeq_ne hmax) h1 h2 (fun _ => hfresh') hlead'
    rw [heq]
    exact henq.continueInOrder (hmove.ok.enqueue (resetRcvSeq_ne hmax) h1 h2).2

theorem Rx.Follows.bar {startSeq : Nat} (hseq : startSeq ≤ maxSeq)
    (hline : s.entry.lastIndSeq ≠ resetRcvSeq → s.barInLine startSeq) :
    (cntlEnqueueForRecv s startSeq).Follows := by
  have hok := hs.ok.bar hseq
  unfold cntlEnqueueForRecv at hok ⊢
  split
  · rename_i hsmaller
    rw [if_pos hsmaller] at hok
    change ((baIndicateReorderingMpdusLeSeq s startSeq).setLastIndSeq (seqBefore startSeq)).Ok
      at hok
    change ((baIndicateReorderingMpdusLeSeq s startSeq).setLastIndSeq (seqBefore startSeq)).Follows
    by_cases hL : s.entry.lastIndSeq = resetRcvSeq
    · -- nothing was handed up and nothing is queued
      rw [hs.ok.leSeq_reset hL] at hok ⊢
      refine ⟨hok, hs.line, ?_, fun _ => hs.first hL⟩
      intro _ d hd
      have hnone : (s.setLastIndSeq (seqBefore startSeq)).lastUp = none := by
        change (s.up.map _).getLast? = none
        rw [hs.first hL]
        rfl
      rw [hnone] at hd
      exact absurd hd (by simp)
    · have hle := (hs.ok.window hL).1
      obtain ⟨hlead, hfresh⟩ := hline hL hsmaller
      obtain ⟨h1, h2⟩ : 1 ≤ s.dist startSeq ∧ s.dist startSeq ≤ 2048 :=
        (seqSmaller_iff hle hseq).mp hsmaller
      -- the code flushes up to `StartSeq` but sets `LastIndSeq` to the number before it
      have hbefore := Rx.dist_seqBefore hle hseq h1
      obtain ⟨ms, rest, hlist, heq, hms, hrest⟩ := hs.ok.leSeq_spec hL hseq h2
      rw [heq] at hok ⊢
      apply hs.moveOn hL hlist (seqBefore_le hseq) hok
      · omega
      · -- `StartSeq` itself is not among the frames handed up
        intro m hm
        have hle' := hms m hm
        have hne : s.dist m.sequence ≠ s.dist startSeq := fun hsame => hfresh <| by
          rw [← circDist_inj (lt_seqSpace hle) (lt_seqSpace m.sequence_le) (lt_seqSpace hseq) hsame]
          exact mem_map_of_mem (hlist ▸ mem_append_left _ hm)
        omega
      · intro hnil
        rw [hnil, nil_append] at hlist
        apply hs.room hL
        · intro m hm
          have := hrest m (hlist ▸ hm)
          omega
        · exact hs.room_of_leads hL hseq (by omega) h2 hlead
  · exact hs

theorem Rx.Follows.flushOne (hL : s.entry.lastIndSeq ≠ resetRcvSeq) (hne : s.entry.list.next ≠ [])
    (now : BitVec 32) : (flushOne s now).Follows := by
  have hle := (hs.ok.window hL).1
  have hnext := and_maxSeq_le (s.entry.lastIndSeq + 1)
  have hd : s.dist ((s.entry.lastIndSeq + 1) &&& maxSeq) = 1 := by
    rw [and_maxSeq]
    exact circDist_step (lt_seqSpace hle) (by decide)
  have hok := hs.ok.flush hL hnext hnext (by omega) (Nat.le_refl _)
  obtain ⟨ms, rest, hlist, heq, hms, hrest⟩ := hs.ok.leSeq_spec hL hnext (by omega)
  -- the missing frame is given up: what is handed up is `LastIndSeq + 1` at most
  have hmove : ((baIndicateReorderingMpdusLeSeq s
      ((s.entry.lastIndSeq + 1) &&& maxSeq)).setLastIndSeq
        ((s.entry.lastIndSeq + 1) &&& maxSeq)).Follows := by
    rw [heq] at hok ⊢
    apply hs.moveOn hL hlist hnext hok (by omega) hms
    intro hnil
    rw [hnil, nil_append] at hlist
    exact hs.room hL (hlist ▸ hrest) (fun h => absurd h hne)
  exact (hmove.setTimer now).continueInOrder (resetRcvSeq_ne hnext)

theorem Rx.Follows.refresh (hL : s.entry.lastIndSeq = resetRcvSeq) :
    (baRefreshReorderingMpdus s).Follows := by
  have hok := hs.ok.refresh
  rw [refresh_eq s hs.ok.counted.list_eq] at hok ⊢
  refine ⟨hok, ?_, fun h => absurd rfl h, ?_⟩
  · change InLine (s.handUpFirst s.entry.list.next []).line
    rw [Rx.handUpFirst_line (append_nil _).symm]
    exact hs.line
  · intro _
    change s.up ++ s.entry.list.next.map _ = []
    rw [hs.first hL, hs.ok.reset hL]
    rfl

/-- The condition on each event. -/
def Rx.inLine (s : Rx) : Event → Prop
  | .arrival _ pool p => p.oversize = false → s.entry.lastIndSeq ≠ resetRcvSeq →
      s.arrivalInLine pool p
  | .bar startSeq _ => s.entry.lastIndSeq ≠ resetRcvSeq → s.barInLine startSeq
  | _ => True

/-- The event does not reset `LastIndSeq`. -/
def Rx.keepsSeq (s : Rx) (e : Event) : Prop :=
  (s.step e).entry.lastIndSeq = resetRcvSeq → s.entry.lastIndSeq = resetRcvSeq

/-- **Step**: every event that does not reset `LastIndSeq` keeps the line in order. -/
theorem Rx.Follows.step (e : Event) (hkeep : s.keepsSeq e) (he : s.inLine e) :
    (s.step e).Follows := by
  cases e with
  | timeout now =>
    change (baFlushReorderingTimeoutMpdus s now).Follows
    unfold Rx.keepsSeq at hkeep
    change (baFlushReorderingTimeoutMpdus s now).entry.lastIndSeq = resetRcvSeq → _ at hkeep
    unfold baFlushReorderingTimeoutMpdus at hkeep ⊢
    split
    · exact hs
    · rename_i hsome
      rw [if_neg hsome] at hkeep
      have hne : s.entry.list.next ≠ [] := by
        intro hnil
        rw [hs.ok.counted.list, hnil] at hsome
        exact hsome (Int.le_refl 0)
      have hL : s.entry.lastIndSeq ≠ resetRcvSeq := fun h => hne (hs.ok.reset h)
      split
      · -- this branch resets `LastIndSeq`
        rename_i hall
        rw [if_pos hall] at hkeep
        exact absurd (hkeep rfl) hL
      · split
        · exact hs.flushOne hL hne now
        · exact hs
  | arrival now pool p =>
    rw [Rx.step_arrival]
    split
    · exact hs.of_eq (hs.ok.releaseNdisPacket p) rfl rfl rfl
    · rename_i hsize
      exact ((hs.withPool pool).setTimer now).arrival now (he (Bool.eq_false_iff.mpr hsize))
  | bar startSeq hseq => exact hs.bar hseq he
  | idle now =>
    change (baRecSessionIdleTimeout s now).Follows
    unfold Rx.keepsSeq at hkeep
    change (baRecSessionIdleTimeout s now).entry.lastIndSeq = resetRcvSeq → _ at hkeep
    unfold baRecSessionIdleTimeout at hkeep ⊢
    split
    · rename_i hidle
      rw [if_pos hidle] at hkeep
      exact hs.refresh (hkeep rfl)
    · exact hs
  | readd baWinSize hW =>
    have hold := hs.refresh (hkeep rfl)
    exact ⟨hs.ok.readd hW, hold.line, fun h => absurd rfl h, fun _ => hold.first rfl⟩

end

/-! ## Runs -/

theorem Rx.Follows.start (e : BaRecEntry) (wcid tid : Nat) {baWinSize : Nat}
    (hW : 1 ≤ baWinSize ∧ baWinSize ≤ 64) : (Rx.start e wcid tid baWinSize).Follows :=
  ⟨Rx.Ok.start e wcid tid hW, isChain_nil, fun h => absurd rfl h, fun _ => rfl⟩

theorem InLine.ne_of_travel {l : List Nat} (h : InLine l) (hle : ∀ x ∈ l, x ≤ maxSeq) {a b : Nat}
    {seg : List Nat} (hseg : a :: seg ++ [b] <:+: l)
    (htravel : circTravel seqSpace (a :: seg ++ [b]) ≤ 2048) : a ≠ b := by
  have hmem : ∀ x ∈ a :: seg ++ [b], x ≤ maxSeq := fun x hx => hle x (hseg.subset hx)
  have hspace : seqSpace = 4096 := rfl
  apply circTravel_ne (n := seqSpace) (l := seg)
  · exact fun x hx => lt_seqSpace (hmem x (mem_append_left _ hx))
  · refine ( List.IsChain.infix h hseg).imp_of_mem_imp ?_
    intro x y hx hy hxy
    exact ((seqSmaller_iff (hmem x hx) (hmem y hy)).mp hxy).1
  · omega

/-- **Delivery**: in every run that does not reset `LastIndSeq` and whose events are
    all in line, each number handed up is `SEQ_SMALLER` than the next, so none is
    handed up twice within half the sequence space. -/
theorem delivery_run (e : BaRecEntry) (wcid tid baWinSize : Nat)
    (hW : 1 ≤ baWinSize ∧ baWinSize ≤ 64) (es : List Event)
    (hkeep : Along Rx.step Rx.keepsSeq (Rx.start e wcid tid baWinSize) es)
    (hline : Along Rx.step Rx.inLine (Rx.start e wcid tid baWinSize) es) :
    InLine (runEvents Rx.step (Rx.start e wcid tid baWinSize) es).delivered ∧
      ∀ a seg b, a :: seg ++ [b] <:+:
          (runEvents Rx.step (Rx.start e wcid tid baWinSize) es).delivered →
        circTravel seqSpace (a :: seg ++ [b]) ≤ 2048 → a ≠ b := by
  have hs := (hkeep.and hline).invariant (fun s e hs h => Rx.Follows.step hs e h.1 h.2)
    (Rx.Follows.start e wcid tid hW)
  have hchain : InLine (runEvents Rx.step (Rx.start e wcid tid baWinSize) es).delivered :=
    List.IsChain.left_of_append hs.line
  refine ⟨hchain, fun a seg b hseg => hchain.ne_of_travel ?_ hseg⟩
  intro x hx
  obtain ⟨p, -, rfl⟩ := List.mem_map.mp hx
  exact p.seq_le

/-! ### Two runs -/

instance instDecidableKeepsSeq (s : Rx) (e : Event) : Decidable (s.keepsSeq e) :=
  inferInstanceAs (Decidable ((s.step e).entry.lastIndSeq = resetRcvSeq →
    s.entry.lastIndSeq = resetRcvSeq))

instance instDecidableLeads (s : Rx) (seq : Nat) : Decidable (s.leads seq) :=
  inferInstanceAs (Decidable ((∀ m ∈ s.queued, seqSmaller m seq = false) →
    ∀ d ∈ s.lastUp, notBeyond d seq = true))

instance instDecidableArrivalInLine (s : Rx) (pool : List Nat) (p : RxBlk) :
    Decidable (s.arrivalInLine pool p) :=
  inferInstanceAs (Decidable
    (seqStepOne p.sequence s.entry.lastIndSeq = true ∨ s.reorders p = true →
      s.leads p.sequence ∧
        (seqStepOne p.sequence s.entry.lastIndSeq = true ∨ p.eap = true ∨ pool = [] →
          p.sequence ∉ s.queued)))

instance instDecidableBarInLine (s : Rx) (startSeq : Nat) : Decidable (s.barInLine startSeq) :=
  inferInstanceAs (Decidable (seqSmaller s.entry.lastIndSeq startSeq = true →
    s.leads startSeq ∧ startSeq ∉ s.queued))

instance instDecidableInLine (s : Rx) : (e : Event) → Decidable (s.inLine e)
  | .arrival _ pool p => inferInstanceAs (Decidable (p.oversize = false →
      s.entry.lastIndSeq ≠ resetRcvSeq → s.arrivalInLine pool p))
  | .bar startSeq _ => inferInstanceAs (Decidable (s.entry.lastIndSeq ≠ resetRcvSeq →
      s.barInLine startSeq))
  | .timeout _ => isTrue trivial
  | .idle _ => isTrue trivial
  | .readd _ _ => isTrue trivial

def barAt (startSeq : Fin seqSpace) : Event := .bar startSeq (le_maxSeq_of_fin startSeq)

/-- 12 is queued; a BAR for 12 hands it up and then expects 12 again; a
    retransmission of 12 is handed up as in order. -/
def barRun : List Event :=
  packetAtZero (dataFrame 10 0) ++ packetAtZero (dataFrame 12 1) ++ [barAt 12] ++
    packetAtZero (dataFrame 12 2)

theorem bar_start_delivered_twice :
    ¬ ∀ (e : BaRecEntry) (wcid tid baWinSize : Nat), 1 ≤ baWinSize ∧ baWinSize ≤ 64 →
      ∀ es : List Event, Along Rx.step Rx.keepsSeq (Rx.start e wcid tid baWinSize) es →
        InLine (runEvents Rx.step (Rx.start e wcid tid baWinSize) es).delivered := by
  intro hall
  have hline := hall zeroSlot 1 0 8 (by decide) barRun (by decide)
  have hdelivered : (runEvents Rx.step (Rx.start zeroSlot 1 0 8) barRun).delivered =
      [10, 12, 12] := by decide
  rw [hdelivered] at hline
  have htwice := (List.isChain_cons_cons.mp (List.isChain_cons_cons.mp hline).2).1
  exact absurd htwice (by decide)

/-- The same frames with a BAR for 13: the retransmission of 12 is dropped, and 13 is
    handed up next. -/
def barNextRun : List Event :=
  packetAtZero (dataFrame 10 0) ++ packetAtZero (dataFrame 12 1) ++ [barAt 13] ++
    packetAtZero (dataFrame 12 2) ++ packetAtZero (dataFrame 13 3)

theorem delivery_bar_next :
    InLine (runEvents Rx.step (Rx.start zeroSlot 1 0 8) barNextRun).delivered ∧
      (runEvents Rx.step (Rx.start zeroSlot 1 0 8) barNextRun).delivered = [10, 12, 13] :=
  ⟨(delivery_run zeroSlot 1 0 8 (by decide) barNextRun (by decide +kernel) (by decide +kernel)).1,
    by decide +kernel⟩

end RalinkSdk.BlockAck
