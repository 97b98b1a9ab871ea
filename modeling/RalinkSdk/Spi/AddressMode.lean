import RalinkSdk.Lib.Run
import RalinkSdk.Spi.WriteReport

/-!
# The address mode between calls

A chip of more than 16 MiB is switched to addresses of four bytes for the time of a read, a write
or an erase.  Between the calls it has to be back in the mode of three bytes, in which the boot
code reads it.

`ramtd_write` returns from its loop when a program command is cut short.  It frees the lock and
clears the write enable latch, but does not switch the mode back.  All other ways through the three
operations do.
-/

namespace RalinkSdk.Spi

open Lib List

/-- The address of a data or erase command has the width the chip is set to. -/
def Transfer.RightWidth (t : Transfer) : Prop :=
  Addressed t.opcode → t.cmd.length = 1 + if t.addr4 then 4 else 3

instance (t : Transfer) : Decidable t.RightWidth := inferInstanceAs (Decidable (_ → _))

inductive MtdCall where
  | erase (addr len : Nat)
  | read (start len : Nat)
  | write (start : Nat) (buf : List (BitVec 8))

namespace Flash

/-- A call; `none` where it never returns. -/
def step (f : Flash) : MtdCall → Option Flash
  | .erase addr len => (f.ramtdErase addr len).map (·.1)
  | .read start len => (f.ramtdRead start len).map (·.1)
  | .write start buf => (f.ramtdWrite start buf).map (·.1)

/-- No call is running: the lock is free and the chip takes three address bytes. -/
structure AtRest (f : Flash) : Prop where
  locked : f.locked = false
  addr4 : f.addr4 = false

/-- After every call of the sequence the driver is at rest, and all commands had the right width. -/
def RestoresMode (f : Flash) (calls : List MtdCall) : Prop :=
  ∀ made, made <+: calls → ∃ f', made.foldlM step f = some f' ∧ f'.AtRest ∧
    ∀ t ∈ f'.sent, t.RightWidth

/-- No program command of the call is cut short. -/
def NoneShort (f : Flash) : MtdCall → Prop
  | .write start buf => f.GoesOn start buf → ∀ o ∈ f.writeOutcomes start buf, ¬ o.Short
  | _ => True

instance (f : Flash) : (c : MtdCall) → Decidable (f.NoneShort c)
  | .write start buf => inferInstanceAs (Decidable (f.GoesOn start buf → _))
  | .erase _ _ | .read _ _ => inferInstanceAs (Decidable True)

/-! ## Commands of the right width -/

variable {f f' f'' : Flash}

/-- From `f` to `f'` the driver has sent commands of the right width. -/
structure Kept (f f' : Flash) : Prop where
  chip : f'.chip = f.chip
  answers : f'.answers = f.answers
  sent : ∃ ts, f'.sent = f.sent ++ ts ∧ ∀ t ∈ ts, t.RightWidth

theorem Kept.trans (h : Kept f f') (h' : Kept f' f'') : Kept f f'' := by
  obtain ⟨ts, hsent, hts⟩ := h.sent
  obtain ⟨ts', hsent', hts'⟩ := h'.sent
  refine ⟨h'.chip.trans h.chip, h'.answers.trans h.answers, ts ++ ts',
    by rw [hsent', hsent, List.append_assoc], ?_⟩
  intro t ht
  rcases mem_append.mp ht with ht | ht
  · exact hts t ht
  · exact hts' t ht

theorem Status.kept (h : Status f f') : Kept f f' := by
  obtain ⟨ts, hsent, hts⟩ := h.sent
  exact ⟨h.chip, h.answers, ts, hsent, fun t ht haddr => absurd haddr (hts t ht)⟩

theorem kept_locked (f : Flash) (b : Bool) : Kept f { f with locked := b } :=
  ⟨rfl, rfl, [], (append_nil _).symm, by simp⟩

theorem kept_up (f : Flash) : Kept f f.up := kept_locked f false

theorem up_locked (f : Flash) : f.up.locked = false := rfl

theorem up_addr4 (f : Flash) : f.up.addr4 = f.addr4 := rfl

theorem Kept.rightWidth (h : Kept f f') (hf : ∀ t ∈ f.sent, t.RightWidth) :
    ∀ t ∈ f'.sent, t.RightWidth := by
  obtain ⟨ts, hsent, hts⟩ := h.sent
  rw [hsent]
  intro t ht
  rcases mem_append.mp ht with ht | ht
  · exact hf t ht
  · exact hts t ht

theorem rightWidth_of_addr4 {t : Transfer} (hcmd : t.cmd.length = 5) (haddr4 : t.addr4 = true) :
    t.RightWidth := fun _ => by
  rw [hcmd, if_pos haddr4]

section

variable (hchip : f.chip.addr4b = true)

include hchip

theorem length_command (opcode : BitVec 8) (addr : Nat) : (f.command opcode addr).length = 5 := by
  rw [command, length_cons, length_addrBytes, ChipInfo.addrBytes, if_pos hchip]

theorem kept_spicTransfer (haddr4 : f.addr4 = true) (opcode : BitVec 8) (addr : Nat)
    (tx : List (BitVec 8)) (n : Nat) : Kept f (f.spicTransfer (f.command opcode addr) tx n).1 := by
  refine ⟨rfl, rfl, _, spicTransfer_sent f _ tx n, ?_⟩
  intro t ht
  obtain rfl := mem_singleton.mp ht
  exact rightWidth_of_addr4 (length_command hchip opcode addr) haddr4

theorem Wrote.kept {os : List Outcome} (h : Wrote os f f') (haddr4 : f.addr4 = true) :
    Kept f f' := by
  obtain ⟨ts, hsent, hts, honly⟩ := h.sent
  refine ⟨h.chip, h.answers, ts, hsent, ?_⟩
  intro t ht haddr
  have htp : t ∈ programs ts := mem_filter.mpr ⟨ht, decide_eq_true (honly t ht haddr)⟩
  rw [hts] at htp
  obtain ⟨o, -, rfl⟩ := List.mem_map.mp htp
  exact rightWidth_of_addr4 (length_command hchip opcodePp o.page.addr) haddr4 haddr

end

theorem writeLoop_locked (fuel : Nat) (f : Flash) (start room : Nat) (buf : List (BitVec 8))
    (count retlen : Nat) (h : (writeLoop fuel f start room buf count retlen).through = false) :
    (writeLoop fuel f start room buf count retlen).flash.locked = false := by
  induction fuel generalizing f start room buf count retlen with
  | zero => cases h
  | succ fuel ih =>
    unfold writeLoop at h ⊢
    dsimp only at h ⊢
    split at h
    · cases h
    next hbuf =>
      rw [if_neg hbuf]
      split at h
      next hshort =>
        rw [if_pos hshort]
        exact (quiet_raspiWriteDisable _).locked
      next hshort =>
        rw [if_neg hshort]
        exact ih _ _ _ _ _ _ h

/-! ## The operations with the lock -/

section

variable (hchip : f.chip.addr4b = true) (hswitch : f.SwitchesSucceed)

include hchip hswitch

theorem raspiEraseSector_restores (haddr4 : f.addr4 = false) (offset : Nat) :
    Kept f (f.raspiEraseSector offset).1 ∧ (f.raspiEraseSector offset).1.addr4 = false := by
  have hready := quiet_raspiWaitReady f 3
  unfold raspiEraseSector
  dsimp only
  split
  · have hg := hready.trans (quiet_enabled (f.raspiWaitReady 3).1)
    set g := (f.raspiWaitReady 3).1.raspiWriteEnable.raspiUnprotect
    rw [if_pos (by rw [hg.chip]; exact hchip)]
    have hon := (status_raspi4byteMode g true).trans (quiet_raspiWriteEnable _).toStatus
    have honMode : (g.raspi4byteMode true).1.raspiWriteEnable.addr4 = true :=
      (quiet_raspiWriteEnable _).addr4.trans
        (raspi4byteMode_addr4 (hswitch.of_answers hg.answers) true)
    have hg₁ := hg.toStatus.trans hon
    set g₁ := (g.raspi4byteMode true).1.raspiWriteEnable
    have hsend : Kept g₁ (g₁.spicWrite (g₁.command opcodeSe offset) []).1 :=
      kept_spicTransfer (by rw [hg₁.chip]; exact hchip) honMode opcodeSe offset [] 0
    set g₂ := (g₁.spicWrite (g₁.command opcodeSe offset) []).1
    have hwait := (quiet_raspiWaitSleepReady g₂ 950).toStatus.kept
    have hall : Kept f (g₂.raspiWaitSleepReady 950).1 := (hg₁.kept.trans hsend).trans hwait
    dsimp only
    exact ⟨hall.trans (status_raspi4byteMode _ false).kept,
      raspi4byteMode_addr4 (hswitch.of_answers hall.answers) false⟩
  · exact ⟨hready.toStatus.kept, hready.addr4.trans haddr4⟩

theorem eraseLoop_restores (n : Nat) (haddr4 : f.addr4 = false) (addr : Nat) :
    Kept f (eraseLoop n f addr).1 ∧ (eraseLoop n f addr).1.addr4 = false := by
  induction n generalizing f addr with
  | zero => exact ⟨(Status.refl f).kept, haddr4⟩
  | succ n ih =>
    obtain ⟨hsector, hmode⟩ := raspiEraseSector_restores hchip hswitch haddr4 addr
    unfold eraseLoop
    dsimp only
    split
    · exact ⟨hsector, hmode⟩
    · obtain ⟨hrest, hend⟩ := ih (by rw [hsector.chip]; exact hchip)
        (hswitch.of_answers hsector.answers) hmode
        (addr + (f.raspiEraseSector addr).1.chip.sectorSize)
      exact ⟨hsector.trans hrest, hend⟩

theorem loopStart_addr4 : f.loopStart.addr4 = true := by
  have hg := (quiet_raspiWaitReady f 2).trans (quiet_raspiWriteEnable _)
  unfold loopStart
  dsimp only
  rw [if_pos (by rw [hg.chip]; exact hchip)]
  exact raspi4byteMode_addr4 (hswitch.of_answers hg.answers) true

theorem readLocked_restores (haddr4 : f.addr4 = false) (start len : Nat) :
    Kept f (f.readLocked start len).1 ∧ (f.readLocked start len).1.AtRest := by
  have hready := quiet_raspiWaitReady f 1
  unfold readLocked
  dsimp only
  split
  · set g := (f.raspiWaitReady 1).1
    have hgchip : g.chip.addr4b = true := by rw [hready.chip]; exact hchip
    rw [if_pos hgchip]
    have hon := status_raspi4byteMode g true
    have honMode := raspi4byteMode_addr4 (hswitch.of_answers hready.answers) true
    set g₁ := (g.raspi4byteMode true).1
    have hg₁chip : g₁.chip.addr4b = true := by rw [hon.chip]; exact hgchip
    rw [if_pos hg₁chip]
    have hsend : Kept g₁ (g₁.spicRead (g₁.command opcodeRead start) len).1 :=
      kept_spicTransfer hg₁chip honMode opcodeRead start [] len
    set g₂ := (g₁.spicRead (g₁.command opcodeRead start) len).1
    have hall : Kept f g₂ := (hready.toStatus.trans hon).kept.trans hsend
    have hoff : (g₂.raspi4byteMode false).1.addr4 = false :=
      raspi4byteMode_addr4 (hswitch.of_answers hall.answers) false
    dsimp only
    have hend := hall.trans (status_raspi4byteMode g₂ false).kept
    exact ⟨hend.trans (kept_up _), up_locked _, (up_addr4 _).trans hoff⟩
  · exact ⟨hready.toStatus.kept.trans (kept_locked _ false), rfl, hready.addr4.trans haddr4⟩

theorem writeLocked_restores (haddr4 : f.addr4 = false) (start : Nat) (buf : List (BitVec 8)) :
    Kept f (f.writeLocked start buf).1 ∧ (f.writeLocked start buf).1.locked = false ∧
      ((f.writeLocked start buf).1.addr4 = false ↔
        ((f.raspiWaitReady 2).2 = true → ∀ o ∈ f.writeOutcomes start buf, ¬ o.Short)) := by
  have hready := quiet_raspiWaitReady f 2
  by_cases hr : (f.raspiWaitReady 2).2 = true
  · have hg := status_loopStart f
    have hmode : f.loopStart.addr4 = true := loopStart_addr4 hchip hswitch
    have hspec := writeLoop_spec buf.length f.loopStart start
      (flashPagesize - start % flashPagesize) buf 0 0
    rw [hg.count, outcomes_congr hg.chip hg.answers] at hspec
    obtain ⟨hwrote, hthrough, -⟩ := hspec
    have hlocked := writeLoop_locked buf.length f.loopStart start
      (flashPagesize - start % flashPagesize) buf 0 0
    rw [writeLocked_of_ready hr]
    set w := writeLoop buf.length f.loopStart start (flashPagesize - start % flashPagesize) buf 0 0
    have hall : Kept f w.flash :=
      hg.kept.trans (hwrote.kept (by rw [hg.chip]; exact hchip) hmode)
    by_cases hw : w.through = true
    · rw [if_pos hw, if_pos (by rw [hall.chip]; exact hchip)]
      dsimp only
      have hoff := (status_raspi4byteMode w.flash false).trans
        (quiet_raspiWriteDisable _).toStatus
      have hoffMode : (w.flash.raspi4byteMode false).1.raspiWriteDisable.addr4 = false :=
        (quiet_raspiWriteDisable _).addr4.trans
          (raspi4byteMode_addr4 (hswitch.of_answers hall.answers) false)
      refine ⟨(hall.trans hoff.kept).trans (kept_locked _ false), rfl, ?_⟩
      exact iff_of_true hoffMode fun _ => hthrough.mp hw
    · rw [if_neg hw]
      dsimp only
      refine ⟨hall, hlocked (Bool.eq_false_iff.mpr hw), ?_⟩
      rw [hwrote.addr4, hmode]
      exact iff_of_false (by decide) fun h => hw (hthrough.mpr (h hr))
  · have hcall : f.writeLocked start buf = ((f.raspiWaitReady 2).1.up, -1, 0) := by
      unfold writeLocked
      exact if_neg hr
    rw [hcall]
    exact ⟨hready.toStatus.kept.trans (kept_locked _ false), rfl,
      iff_of_true (hready.addr4.trans haddr4) fun h => absurd h hr⟩

end

/-! ## Runs -/

/-- What holds of the driver between calls that all restore the mode. -/
structure Resting (f : Flash) : Prop extends AtRest f where
  addr4b : f.chip.addr4b = true
  switches : f.SwitchesSucceed
  widths : ∀ t ∈ f.sent, t.RightWidth

theorem Resting.down (h : f.Resting) : f.down = some { f with locked := true } :=
  if_neg (by simp [h.locked])

theorem step_restores_iff (h : f.Resting) (c : MtdCall) :
    ∃ f', f.step c = some f' ∧ Kept f f' ∧ f'.locked = false ∧
      (f'.addr4 = false ↔ f.NoneShort c) := by
  cases c with
  | erase addr len =>
    dsimp only [step]
    unfold ramtdErase
    split
    · exact ⟨f, rfl, (Status.refl f).kept, h.locked, iff_of_true h.addr4 trivial⟩
    split
    · exact ⟨f, rfl, (Status.refl f).kept, h.locked, iff_of_true h.addr4 trivial⟩
    · rw [h.down]
      obtain ⟨hkept, hmode⟩ := eraseLoop_restores (f := { f with locked := true }) h.addr4b
        h.switches (len / f.chip.sectorSize) h.addr4 addr
      exact ⟨_, rfl, ((kept_locked f true).trans hkept).trans (kept_locked _ false), rfl,
        iff_of_true hmode trivial⟩
  | read start len =>
    dsimp only [step]
    unfold ramtdRead
    split
    · exact ⟨f, rfl, (Status.refl f).kept, h.locked, iff_of_true h.addr4 trivial⟩
    split
    · exact ⟨f, rfl, (Status.refl f).kept, h.locked, iff_of_true h.addr4 trivial⟩
    · rw [h.down]
      obtain ⟨hkept, hrest⟩ := readLocked_restores (f := { f with locked := true }) h.addr4b
        h.switches h.addr4 start len
      exact ⟨_, rfl, (kept_locked f true).trans hkept, hrest.locked,
        iff_of_true hrest.addr4 trivial⟩
  | write start buf =>
    dsimp only [step]
    unfold ramtdWrite
    split
    next hbuf =>
      exact ⟨f, rfl, (Status.refl f).kept, h.locked,
        iff_of_true h.addr4 fun hgo => absurd hbuf hgo.2.1⟩
    next hbuf =>
      split
      next hsize =>
        exact ⟨f, rfl, (Status.refl f).kept, h.locked,
          iff_of_true h.addr4 fun hgo => absurd hgo.2.2.1 (Nat.not_le.mpr hsize)⟩
      next hsize =>
        rw [h.down]
        obtain ⟨hkept, hfree, hmode⟩ := writeLocked_restores (f := { f with locked := true })
          h.addr4b h.switches h.addr4 start buf
        refine ⟨_, rfl, (kept_locked f true).trans hkept, hfree, hmode.trans ?_⟩
        rw [writeOutcomes_locked]
        exact ⟨fun hno hgo => hno hgo.2.2.2,
          fun hno hr => hno ⟨h.locked, hbuf, Nat.not_lt.mp hsize, hr⟩⟩

theorem resting_of_kept (h : f.Resting) (hkept : Kept f f') (hlocked : f'.locked = false)
    (haddr4 : f'.addr4 = false) : f'.Resting :=
  { locked := hlocked
    addr4 := haddr4
    addr4b := by rw [hkept.chip]; exact h.addr4b
    switches := h.switches.of_answers hkept.answers
    widths := hkept.rightWidth h.widths }

end Flash

open Flash

/-- **The address mode is restored** by a sequence of calls exactly when no program command of its
    writes is cut short. -/
theorem restoresMode_iff (f : Flash) (hchip : f.chip.addr4b = true) (hswitch : f.SwitchesSucceed)
    (hrest : f.AtRest) (hsent : ∀ t ∈ f.sent, t.RightWidth) (calls : List MtdCall) :
    f.RestoresMode calls ↔
      Along (stepM step) (OnSome NoneShort) (some f) calls := by
  have h : f.Resting := { toAtRest := hrest, addr4b := hchip, switches := hswitch, widths := hsent }
  clear hchip hswitch hrest hsent
  induction calls generalizing f with
  | nil =>
    refine iff_of_true (fun made hmade => ?_) trivial
    rw [List.prefix_nil.mp hmade]
    exact ⟨f, rfl, h.toAtRest, h.widths⟩
  | cons c calls ih =>
    obtain ⟨f', hstep, hkept, hlocked, hmode⟩ := step_restores_iff h c
    rw [along_cons, onSome_some, stepM_some, hstep]
    constructor
    · intro hall
      obtain ⟨f₁, hrun₁, hrest₁, -⟩ := hall [c] (List.prefix_append [c] calls)
      rw [List.foldlM_cons, hstep] at hrun₁
      cases hrun₁
      refine ⟨hmode.mp hrest₁.addr4, (ih f' (resting_of_kept h hkept hlocked hrest₁.addr4)).mp ?_⟩
      intro made hmade
      have hrun := hall (c :: made) ((List.prefix_cons_inj c).mpr hmade)
      rw [List.foldlM_cons, hstep] at hrun
      exact hrun
    · rintro ⟨hshort, halong⟩ made hmade
      have haddr4 := hmode.mpr hshort
      rcases List.prefix_cons_iff.mp hmade with rfl | ⟨rest, rfl, hrest⟩
      · exact ⟨f, rfl, h.toAtRest, h.widths⟩
      · rw [List.foldlM_cons, hstep]
        exact (ih f' (resting_of_kept h hkept hlocked haddr4)).mpr halong rest hrest

theorem thirtyTwoMegabytes_fit : 64 * 1024 * 512 ≤ 256 ^ (if true then 4 else 3) := by decide

/-- A chip of 32 MiB whose program commands are taken up to byte `n` of the transfer. -/
def bigFlash (n : Nat) : Flash where
  chip := chip64k 0xc2 0x2019c220 512 true thirtyTwoMegabytes_fit
  locked := false
  addr4 := false
  answers := fun opcode _ => ⟨fun i => opcode = opcodePp && decide (n ≤ i), fun _ => 0, true⟩
  sent := []

theorem switchesSucceed_bigFlash (n : Nat) : (bigFlash n).SwitchesSucceed := by
  intro opcode hop k
  have hne : opcode ≠ opcodePp := by
    rintro rfl
    revert hop
    decide
  exact ⟨fun i => by simp [bigFlash, hne], rfl⟩

theorem restoresMode_bigFlash : (bigFlash 300).RestoresMode
      [.erase 0 65536, .write 250 [1, 2, 3, 4, 5, 6, 7, 8], .read 250 8] :=
  (restoresMode_iff (bigFlash 300) rfl (switchesSucceed_bigFlash 300) ⟨rfl, rfl⟩ (by decide) _).mpr
    (by decide)

/-- The second of two bytes is not taken, and the chip is left in its mode of four bytes. -/
theorem not_restoresMode_bigFlash :
    (bigFlash 6).chip.addr4b = true ∧ (bigFlash 6).SwitchesSucceed ∧ (bigFlash 6).AtRest ∧
      ¬ (bigFlash 6).RestoresMode [.write 0 [1, 2]] := by
  refine ⟨rfl, switchesSucceed_bigFlash 6, ⟨rfl, rfl⟩, fun h => ?_⟩
  obtain ⟨f', hrun, hrest, -⟩ := h _ List.prefix_rfl
  have hmode : (List.foldlM step (bigFlash 6) [.write 0 [1, 2]]).map (·.addr4) = some true := by
    decide
  rw [hrun, Option.map_some, hrest.addr4] at hmode
  cases hmode

end RalinkSdk.Spi
