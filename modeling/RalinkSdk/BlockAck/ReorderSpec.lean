import RalinkSdk.BlockAck.Reorder

/-!
# What the reordering functions do

Each function of `RalinkSdk.BlockAck.Reorder` in closed form, for a list whose
`qlen` counts its entries.  The one effect all of them share is `Rx.handUpFirst`: an
initial part of the list is handed up and its blocks go back to the free list.

## Main results

- `seqSmaller_iff`, `seqStepOne_iff`: the macros as circular distances.
-/

namespace RalinkSdk.BlockAck

open Lib List Nat

/-! ## The macros -/

abbrev seqSpace : Nat := maxSeq + 1

instance (priority := 1100) instNeZeroSeqSpace : NeZero seqSpace := ⟨succ_ne_zero maxSeq⟩

theorem lt_seqSpace {a : Nat} (h : a ≤ maxSeq) : a < seqSpace := lt_succ_of_le h

theorem le_maxSeq_of_fin (sequence : Fin seqSpace) : sequence.val ≤ maxSeq :=
  le_of_lt_succ sequence.isLt

theorem and_maxSeq (n : Nat) : n &&& maxSeq = n % seqSpace := by
  have h : maxSeq = 2 ^ 12 - 1 := rfl
  rw [h, and_two_pow_sub_one_eq_mod]
  rfl

theorem seqStepOne_iff {a b : Nat} (ha : a ≤ maxSeq) (hb : b ≤ maxSeq) :
    seqStepOne a b = true ↔ circDist seqSpace b a = 1 := by
  simp only [seqStepOne, beq_iff_eq, and_maxSeq]
  constructor
  · rintro rfl
    exact circDist_step (lt_seqSpace hb) (by decide)
  · intro h
    have hstep : circDist seqSpace b ((b + 1) % seqSpace) = 1 :=
      circDist_step (lt_seqSpace hb) (by decide)
    exact circDist_inj (lt_seqSpace hb) (lt_seqSpace ha) (mod_lt _ (by decide))
      (h.trans hstep.symm)

theorem seqSmaller_iff {a b : Nat} (ha : a ≤ maxSeq) (hb : b ≤ maxSeq) :
    seqSmaller a b = true ↔ 1 ≤ circDist seqSpace a b ∧ circDist seqSpace a b ≤ 2048 := by
  have hmask : ∀ x : BitVec 32, ((x &&& BitVec.ofNat 32 ((maxSeq + 1) >>> 1)) != 0#32) = true ↔
      x.toNat / 2048 % 2 = 1 := by
    intro x
    have h2048 : (BitVec.ofNat 32 ((maxSeq + 1) >>> 1)).toNat = 2 ^ 11 := by decide
    rw [bne_iff_ne, ne_eq, ← BitVec.toNat_inj, BitVec.toNat_and, h2048, and_two_pow,
      testBit_eq_decide_div_mod_eq]
    simp
  rw [seqSmaller, hmask, BitVec.toNat_sub, BitVec.toNat_ofNat, BitVec.toNat_ofNat]
  simp only [maxSeq] at ha hb
  simp only [seqSpace, maxSeq, circDist]
  split <;> omega

/-! ## Handing up an initial part -/

/-- The entries `ms` are handed up and their blocks freed; `rest` is left. -/
def Rx.handUpFirst (s : Rx) (ms rest : List ReorderingMpdu) : Rx where
  entry := { s.entry with list := ⟨rest, rest.length⟩ }
  freelist := ⟨(ms.map (·.blk)).reverse ++ s.freelist.next, s.freelist.qlen + ms.length⟩
  up := s.up ++ ms.map (·.pPacket)
  released := s.released

/-- The part of the list a loop with this test takes. -/
def runOf (test : Nat → ReorderingMpdu → Bool) : Nat → List ReorderingMpdu → List ReorderingMpdu
  | _, [] => []
  | start, m :: ms => if test start m then m :: runOf test m.sequence ms else []

theorem runOf_isPrefix (test : Nat → ReorderingMpdu → Bool) (start : Nat)
    (l : List ReorderingMpdu) : runOf test start l <+: l := by
  induction l generalizing start with
  | nil => exact prefix_refl _
  | cons m ms ih =>
    rw [runOf]
    split
    · exact (prefix_cons_inj m).mpr (ih m.sequence)
    · exact nil_prefix

/-- The last number handed up, or `seq` when there was none. -/
def lastOf : Nat → List ReorderingMpdu → Nat
  | seq, [] => seq
  | _, m :: ms => lastOf m.sequence ms

theorem Rx.handUpFirst_nil (s : Rx) {l : List ReorderingMpdu}
    (hlist : s.entry.list = ⟨l, l.length⟩) : s.handUpFirst [] l = s := by
  obtain ⟨⟨_, _, _, _, _, _, _, list⟩, _, _, _⟩ := s
  simp only at hlist
  subst hlist
  simp [Rx.handUpFirst]

theorem baDequeue_cons {α : Type} (m : α) (ms : List α) :
    baDequeue ⟨m :: ms, ((m :: ms).length : Nat)⟩ = (some m, ⟨ms, ms.length⟩) := by
  have hne : (((m :: ms).length : Nat) : Int) ≠ 0 := by
    rw [length_cons]
    omega
  rw [baDequeue, if_pos hne]
  simp

theorem indicateWhile_eq (test : Nat → ReorderingMpdu → Bool) (l : List ReorderingMpdu) (s : Rx)
    (start last : Nat) (hlist : s.entry.list = ⟨l, l.length⟩) :
    indicateWhile test l.length s start last =
      (s.handUpFirst (runOf test start l) (l.drop (runOf test start l).length),
        lastOf last (runOf test start l)) := by
  -- the turns of the loop are as many as the list is long
  induction l generalizing s start last with
  | nil =>
    rw [length_nil, indicateWhile, runOf, lastOf, drop_nil, s.handUpFirst_nil hlist]
  | cons m ms ih =>
    rw [length_cons, indicateWhile]
    cases htest : test start m with
    | false =>
      simp only [hlist, htest, if_true, runOf, lastOf, length_nil, drop_zero,
        Bool.false_eq_true, if_false]
      rw [s.handUpFirst_nil hlist]
    | true =>
      simp only [hlist, htest, Bool.true_eq_false, if_false, baDequeue_cons]
      -- one frame goes up, and the loop goes on with its number
      rw [ih _ _ _ rfl]
      simp only [runOf, htest, if_true, lastOf, Prod.mk.injEq, and_true, length_cons,
        drop_succ_cons]
      simp [Rx.handUpFirst, Rx.setList, Rx.handUp, baMpduBlkFree, baEnqueue]
      omega

theorem runOf_const (p : ReorderingMpdu → Bool) (start : Nat) (l : List ReorderingMpdu) :
    runOf (fun _ m => p m) start l = l.takeWhile p := by
  induction l generalizing start with
  | nil => rfl
  | cons m ms ih =>
    rw [runOf, takeWhile_cons]
    split <;> simp [ih]

theorem refresh_eq (s : Rx) {l : List ReorderingMpdu} (hlist : s.entry.list = ⟨l, l.length⟩) :
    baRefreshReorderingMpdus s = (s.handUpFirst l []).setLastIndSeq resetRcvSeq := by
  -- the loop leaves the last number handed up, which is then reset
  have hloop : ∀ (l : List ReorderingMpdu) (s : Rx), s.entry.list = ⟨l, l.length⟩ →
      refreshLoop (l.length + 1) s = (s.handUpFirst l []).setLastIndSeq
        (lastOf s.entry.lastIndSeq l) := by
    intro l
    induction l with
    | nil =>
      intro s h
      simp [refreshLoop, baDequeue, h, Rx.setList, Rx.handUpFirst, Rx.setLastIndSeq, lastOf]
    | cons m ms ih =>
      intro s h
      have hdeq : baDequeue s.entry.list = (some m, ⟨ms, ms.length⟩) := by
        rw [h, baDequeue_cons]
      rw [length_cons, refreshLoop, hdeq]
      simp only
      rw [ih _ rfl, lastOf]
      simp [Rx.handUpFirst, Rx.setList, Rx.handUp, baMpduBlkFree, baEnqueue, Rx.setLastIndSeq]
      omega
  have hlen : s.entry.list.next.length = l.length := by rw [hlist]
  rw [baRefreshReorderingMpdus, hlen, hloop l s hlist]
  simp [Rx.setLastIndSeq]

/-! ## Windowed lists of frames -/

/-- The frames of the list lie in the window of width `w` behind `base`, in order. -/
abbrev InWindow (base w : Nat) (l : List ReorderingMpdu) : Prop :=
  Windowed seqSpace ReorderingMpdu.sequence base w l

/-- The frame is at most `d` ahead of `base`. -/
def near (base d : Nat) (m : ReorderingMpdu) : Bool :=
  decide (circDist seqSpace base m.sequence ≤ d)

theorem ReorderingMpdu.sequence_le (m : ReorderingMpdu) : m.sequence ≤ maxSeq := m.pPacket.seq_le

section

variable {base w : Nat} {l : List ReorderingMpdu}

theorem seqSmaller_window {a b : Nat} (hbase : base ≤ maxSeq) (ha : a ≤ maxSeq) (hb : b ≤ maxSeq)
    (hda : circDist seqSpace base a ≤ 2048) (hdb : circDist seqSpace base b ≤ 2048)
    (hnear : circDist seqSpace base a < circDist seqSpace base b + 2048) :
    seqSmaller a b = true ↔ circDist seqSpace base a < circDist seqSpace base b := by
  rw [seqSmaller_iff ha hb]
  have hspace : seqSpace = 4096 := rfl
  rcases Nat.lt_or_ge (circDist seqSpace base b) (circDist seqSpace base a) with h | h
  · -- `b` is behind `a`: the way forward is the long one
    have := circDist_back (lt_seqSpace hbase) (lt_seqSpace ha) h
    omega
  · have := circDist_sub (lt_seqSpace hbase) (lt_seqSpace ha) (lt_seqSpace hb) h
    omega

theorem takeWhile_congr_mem {α : Type} {p q : α → Bool} {l : List α} (h : ∀ x ∈ l, p x = q x) :
    l.takeWhile p = l.takeWhile q ∧ l.drop (l.takeWhile p).length = l.dropWhile q := by
  induction l with
  | nil => simp
  | cons x l ih =>
    have hx := h x (mem_cons_self ..)
    obtain ⟨h1, h2⟩ := ih fun y hy => h y (mem_cons_of_mem _ hy)
    rw [takeWhile_cons, takeWhile_cons, dropWhile_cons, hx]
    cases q x with
    | false => simp
    | true =>
      simp only [if_true, length_cons, drop_succ_cons]
      exact ⟨by rw [h1], h2⟩

/-- **Up to a number**: `ba_indicate_reordering_mpdus_le_seq` hands up exactly the
    frames that are not further away than `seq`. -/
theorem leSeq_eq (s : Rx) {seq : Nat} (hlist : s.entry.list = ⟨l, l.length⟩)
    (hbase : base ≤ maxSeq) (hw : w ≤ 64) (hl : InWindow base w l) (hseq : seq ≤ maxSeq)
    (hd : circDist seqSpace base seq ≤ 2048) : baIndicateReorderingMpdusLeSeq s seq =
      s.handUpFirst (l.takeWhile (near base (circDist seqSpace base seq)))
        (l.dropWhile (near base (circDist seqSpace base seq))) := by
  -- inside a window the circular test is a test of distances
  have htest : ∀ m ∈ l, (m.sequence == seq || seqSmaller m.sequence seq) =
      near base (circDist seqSpace base seq) m := by
    intro m hm
    have hwm := hl.within m hm
    have hsm := seqSmaller_window hbase m.sequence_le hseq (by omega) hd (by omega)
    rw [Bool.eq_iff_iff, Bool.or_eq_true, beq_iff_eq, hsm, near, decide_eq_true_eq]
    constructor
    · rintro (rfl | h)
      · exact Nat.le_refl _
      · omega
    · intro h
      rcases Nat.lt_or_ge (circDist seqSpace base m.sequence) (circDist seqSpace base seq)
        with h' | h'
      · exact .inr h'
      · exact .inl (circDist_inj (lt_seqSpace hbase) (lt_seqSpace m.sequence_le)
          (lt_seqSpace hseq) (by omega))
  obtain ⟨htake, hdrop⟩ := takeWhile_congr_mem htest
  have hlen : s.entry.list.next.length = l.length := by rw [hlist]
  rw [baIndicateReorderingMpdusLeSeq, hlen, indicateWhile_eq _ l s _ _ hlist, runOf_const, hdrop,
    htake]

theorem runOf_stepOne_spec (hbase : base ≤ maxSeq) (hw : w ≤ 64) (hl : InWindow base w l) :
    circDist seqSpace base (lastOf base (runOf (fun start m => seqStepOne m.sequence start) base l)) =
        (runOf (fun start m => seqStepOne m.sequence start) base l).length ∧
      lastOf base (runOf (fun start m => seqStepOne m.sequence start) base l) ≤ maxSeq ∧
      (∀ m ∈ runOf (fun start m => seqStepOne m.sequence start) base l,
        circDist seqSpace base m.sequence ≤
          (runOf (fun start m => seqStepOne m.sequence start) base l).length) ∧
      ∀ m ∈ l.drop (runOf (fun start m => seqStepOne m.sequence start) base l).length,
        (runOf (fun start m => seqStepOne m.sequence start) base l).length + 2 ≤
          circDist seqSpace base m.sequence := by
  induction l generalizing base with
  | nil => simp [runOf, lastOf, hbase]
  | cons m l ih =>
    have hm := m.sequence_le
    have hstep := seqStepOne_iff hm hbase
    have hsorted := pairwise_cons.mp hl.sorted
    rw [runOf]
    cases hone : seqStepOne m.sequence base with
    | false =>
      -- the first frame leaves a gap, and the others are behind it
      simp only [Bool.false_eq_true, if_false, lastOf, circDist_self, length_nil,
        drop_zero, true_and]
      refine ⟨hbase, by simp, ?_⟩
      have hfirst : 2 ≤ circDist seqSpace base m.sequence := by
        have h1 := hl.ahead m (mem_cons_self ..)
        have h2 : circDist seqSpace base m.sequence ≠ 1 := fun h => by
          rw [hstep.mpr h] at hone
          exact absurd hone (by decide)
        omega
      intro x hx
      rcases mem_cons.mp hx with rfl | hx
      · omega
      · have := hsorted.1 x hx
        omega
    | true =>
      have hd := hstep.mp hone
      have htail : InWindow m.sequence w l :=
        (hl.sublist (sublist_cons_self m l)).rebase (lt_seqSpace hbase) (lt_seqSpace hm)
          hsorted.1
      obtain ⟨ih1, ih2, ih3, ih4⟩ := ih hm htail
      have hlen : (runOf (fun start m => seqStepOne m.sequence start) m.sequence l).length ≤ w :=
        (runOf_isPrefix _ _ _).length_le.trans htail.length_le
      have hspace : seqSpace = 4096 := rfl
      -- distances from `base` are one more than those from `m`
      have hshift : ∀ x ∈ l, circDist seqSpace m.sequence x.sequence =
          circDist seqSpace base x.sequence - 1 := by
        intro x hx
        rw [← hd]
        exact circDist_sub (lt_seqSpace hbase) (lt_seqSpace hm) (lt_seqSpace x.sequence_le)
          (Nat.le_of_lt (hsorted.1 x hx))
      simp only [if_true, lastOf, length_cons, drop_succ_cons]
      refine ⟨?_, ih2, ?_, ?_⟩
      · rw [circDist_add (lt_seqSpace hbase) (lt_seqSpace hm) (by omega), ih1, hd]
        omega
      · refine forall_mem_cons.mpr ⟨by omega, fun x hx => ?_⟩
        have h3 := ih3 x hx
        have := hshift x ((runOf_isPrefix _ _ _).subset hx)
        omega
      · intro x hx
        have h4 := ih4 x hx
        have := hshift x (mem_of_mem_drop hx)
        omega

/-- **In order**: `continueInOrder` hands up the frames that follow `LastIndSeq`
    without a gap and moves it to the last of them; what is left is windowed over the
    new `LastIndSeq` and does not follow it. -/
theorem continueInOrder_spec (s : Rx) (hlist : s.entry.list = ⟨l, l.length⟩)
    (hbase : s.entry.lastIndSeq ≤ maxSeq) (hw : w ≤ 64) (hl : InWindow s.entry.lastIndSeq w l) :
    ∃ ms rest last, l = ms ++ rest ∧
      continueInOrder s = (s.handUpFirst ms rest).setLastIndSeq last ∧
      last ≤ maxSeq ∧ circDist seqSpace s.entry.lastIndSeq last = ms.length ∧
      (∀ m ∈ ms, circDist seqSpace s.entry.lastIndSeq m.sequence ≤ ms.length) ∧
      InWindow last w rest ∧ ∀ m ∈ rest, 2 ≤ circDist seqSpace last m.sequence := by
  obtain ⟨hd, hle, hwithin, hrest⟩ := runOf_stepOne_spec hbase hw hl
  obtain ⟨ms, hms⟩ : ∃ ms, ms = runOf (fun start m => seqStepOne m.sequence start)
      s.entry.lastIndSeq l := ⟨_, rfl⟩
  rw [← hms] at hd hle hrest
  have hpre : ms <+: l := hms ▸ runOf_isPrefix _ _ _
  have hlen : s.entry.list.next.length = l.length := by rw [hlist]
  have hsub := drop_sublist ms.length l
  have hfar : ∀ m ∈ l.drop ms.length, circDist seqSpace s.entry.lastIndSeq
      (lastOf s.entry.lastIndSeq ms) < circDist seqSpace s.entry.lastIndSeq m.sequence := by
    intro m hm
    have := hrest m hm
    omega
  refine ⟨ms, l.drop ms.length, lastOf s.entry.lastIndSeq ms, ?_, ?_, hle, hd, ?_, ?_, ?_⟩
  · obtain ⟨t, rfl⟩ := hpre
    simp
  · rw [continueInOrder, baIndicateReorderingMpdusInOrder, hlen, indicateWhile_eq _ l s _ _ hlist,
      ← hms]
    cases ms with
    | nil =>
      -- nothing was handed up, and `LastIndSeq` stays
      simp [lastOf, Rx.setLastIndSeq, Rx.handUpFirst]
    | cons m ms =>
      have hne : lastOf resetRcvSeq (m :: ms) ≠ resetRcvSeq := by
        have hle' : lastOf resetRcvSeq (m :: ms) ≤ maxSeq := hle
        have hlt : maxSeq < resetRcvSeq := by decide
        omega
      simp only [hne, ne_eq, not_false_eq_true, if_true]
      rfl
  · rw [hms]
    exact hwithin
  · exact (hl.sublist hsub).rebase (lt_seqSpace hbase) (lt_seqSpace hle) hfar
  · intro m hm
    have h2 := hrest m hm
    have := circDist_sub (lt_seqSpace hbase) (lt_seqSpace hle) (lt_seqSpace m.sequence_le)
      (Nat.le_of_lt (hfar m hm))
    omega

/-! ## Sorted insertion -/

theorem insertScan_dup {m : ReorderingMpdu} (hbase : base ≤ maxSeq) (hw : w ≤ 64)
    (hl : InWindow base w l) (hm : circDist seqSpace base m.sequence ≤ w)
    (hmem : m.sequence ∈ l.map (·.sequence)) : insertScan m l = none := by
  induction l with
  | nil => simp at hmem
  | cons x l ih =>
    have hx := hl.within x (mem_cons_self ..)
    have hsm := seqSmaller_window hbase x.sequence_le m.sequence_le (by omega) (by omega) (by omega)
    have htail := hl.sublist (sublist_cons_self x l)
    have hsorted := pairwise_cons.mp hl.sorted
    rw [insertScan]
    by_cases heq : x.sequence = m.sequence
    · have hnot : ¬ seqSmaller x.sequence m.sequence = true := by
        rw [hsm, heq]
        exact Nat.lt_irrefl _
      rw [if_neg hnot, if_pos heq]
    · rw [map_cons, mem_cons] at hmem
      have hmem' := hmem.resolve_left (Ne.symm heq)
      obtain ⟨y, hy, hym⟩ := mem_map.mp hmem'
      -- the copy is further back, and the list is sorted
      have hlt : seqSmaller x.sequence m.sequence = true := by
        rw [hsm, ← hym]
        exact hsorted.1 y hy
      simp [hlt, ih htail hmem']

/-- **Insertion**: a new frame inside the window is put in its place. -/
theorem insertScan_new {m : ReorderingMpdu} (hbase : base ≤ maxSeq) (hw : w ≤ 64)
    (hl : InWindow base w l) (hm1 : 1 ≤ circDist seqSpace base m.sequence)
    (hm2 : circDist seqSpace base m.sequence ≤ w) (hmem : m.sequence ∉ l.map (·.sequence)) :
    ∃ l₁ l₂, l = l₁ ++ l₂ ∧ insertScan m l = some (l₁ ++ m :: l₂) ∧
      InWindow base w (l₁ ++ m :: l₂) ∧
      ∀ x ∈ l₁, circDist seqSpace base x.sequence < circDist seqSpace base m.sequence := by
  induction l with
  | nil =>
    exact ⟨[], [], rfl, rfl,
      Windowed.nil.cons (lt_seqSpace m.sequence_le) hm1 hm2 (by simp), by simp⟩
  | cons x l ih =>
    have hx := hl.within x (mem_cons_self ..)
    have hsm := seqSmaller_window hbase x.sequence_le m.sequence_le (by omega) (by omega) (by omega)
    have htail := hl.sublist (sublist_cons_self x l)
    have hsorted := pairwise_cons.mp hl.sorted
    rw [map_cons, mem_cons, not_or] at hmem
    rw [insertScan]
    cases hlt : seqSmaller x.sequence m.sequence with
    | true =>
      obtain ⟨l₁, l₂, rfl, hins, hwin, hbefore⟩ := ih htail hmem.2
      have hxm := hsm.mp hlt
      refine ⟨x :: l₁, l₂, rfl, by simp [hins], ?_, forall_mem_cons.mpr ⟨hxm, hbefore⟩⟩
      refine hwin.cons (lt_seqSpace x.sequence_le) (hl.ahead x (mem_cons_self ..)) hx ?_
      intro y hy
      rcases mem_append.mp hy with hy | hy
      · exact hsorted.1 y (mem_append_left _ hy)
      · rcases mem_cons.mp hy with rfl | hy
        · exact hxm
        · exact hsorted.1 y (mem_append_right _ hy)
    | false =>
      -- `m` goes in front of `x`
      have hmx : circDist seqSpace base m.sequence < circDist seqSpace base x.sequence := by
        have hnot : ¬ circDist seqSpace base x.sequence < circDist seqSpace base m.sequence :=
          fun h => by
            rw [hsm.mpr h] at hlt
            exact absurd hlt (by decide)
        have hne : circDist seqSpace base m.sequence ≠ circDist seqSpace base x.sequence :=
          fun h => hmem.1 (circDist_inj (lt_seqSpace hbase) (lt_seqSpace m.sequence_le)
            (lt_seqSpace x.sequence_le) h)
        omega
      refine ⟨[], x :: l, rfl, by simp [Ne.symm hmem.1], ?_, by simp⟩
      exact hl.cons (lt_seqSpace m.sequence_le) hm1 hm2
        (forall_mem_cons.mpr ⟨hmx, fun y hy => hmx.trans (hsorted.1 y hy)⟩)

end

end RalinkSdk.BlockAck
