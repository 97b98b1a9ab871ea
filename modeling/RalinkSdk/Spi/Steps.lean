import RalinkSdk.Spi.Flash

/-!
# What the steps of the SPI flash driver send

Most of what the driver sends reads or sets a register of the chip.  `Status` says so of a piece of
its work: no data or erase command is among the transfers, and the chip, the answers and the lock
are as before.
-/

namespace RalinkSdk.Spi

/-- The commands that carry an address. -/
def Addressed (opcode : BitVec 8) : Prop :=
  opcode = opcodeRead ∨ opcode = opcodePp ∨ opcode = opcodeSe

instance (opcode : BitVec 8) : Decidable (Addressed opcode) :=
  inferInstanceAs (Decidable (_ ∨ _))

namespace Flash

variable {f f' f'' : Flash}

/-- From `f` to `f'` the driver has sent commands without an address. -/
structure Status (f f' : Flash) : Prop where
  chip : f'.chip = f.chip
  answers : f'.answers = f.answers
  locked : f'.locked = f.locked
  sent : ∃ ts, f'.sent = f.sent ++ ts ∧ ∀ t ∈ ts, ¬ Addressed t.opcode

theorem Status.refl (f : Flash) : Status f f := ⟨rfl, rfl, rfl, [], by simp, by simp⟩

theorem Status.trans (h : Status f f') (h' : Status f' f'') : Status f f'' := by
  obtain ⟨ts, hsent, hts⟩ := h.sent
  obtain ⟨ts', hsent', hts'⟩ := h'.sent
  refine ⟨h'.chip.trans h.chip, h'.answers.trans h.answers, h'.locked.trans h.locked,
    ts ++ ts', by rw [hsent', hsent, List.append_assoc], ?_⟩
  intro t ht
  rcases List.mem_append.mp ht with ht | ht
  · exact hts t ht
  · exact hts' t ht

/-! ## Transfers -/

section

variable (f : Flash) (cmd tx : List (BitVec 8)) (n : Nat)

@[simp] theorem spicTransfer_sent :
    (f.spicTransfer cmd tx n).1.sent =
      f.sent ++ [⟨cmd, tx, (f.spicTransfer cmd tx n).2.1, f.addr4⟩] := rfl

end

theorem status_spicTransfer (f : Flash) {cmd : List (BitVec 8)} (tx : List (BitVec 8)) (n : Nat)
    (hcmd : ¬ Addressed (cmd.headD 0)) : Status f (f.spicTransfer cmd tx n).1 :=
  ⟨rfl, rfl, rfl, _, spicTransfer_sent f cmd tx n, by
    intro t ht
    obtain rfl := List.mem_singleton.mp ht
    exact hcmd⟩

/-- A command that is no mode switch. -/
def NoSwitch (cmd : List (BitVec 8)) : Prop :=
  cmd ≠ [opcodeBrwr] ∧ cmd ≠ [opcodeEn4b] ∧ cmd ≠ [opcodeEx4b]

instance (cmd : List (BitVec 8)) : Decidable (NoSwitch cmd) :=
  inferInstanceAs (Decidable (_ ∧ _))

theorem spicTransfer_addr4 (f : Flash) {cmd : List (BitVec 8)} (tx : List (BitVec 8)) (n : Nat)
    (hcmd : NoSwitch cmd) : (f.spicTransfer cmd tx n).1.addr4 = f.addr4 := by
  obtain ⟨hbrwr, hen, hex⟩ := hcmd
  simp [spicTransfer, switched, hbrwr, hen, hex]

/-! ## Registers of the chip -/

/-- A piece of work that sends no address and does not switch the mode. -/
structure Quiet (f f' : Flash) : Prop extends Status f f' where
  addr4 : f'.addr4 = f.addr4

theorem Quiet.refl (f : Flash) : Quiet f f := ⟨.refl f, rfl⟩

theorem Quiet.trans (h : Quiet f f') (h' : Quiet f' f'') : Quiet f f'' :=
  ⟨h.toStatus.trans h'.toStatus, h'.addr4.trans h.addr4⟩

theorem quiet_spicTransfer (f : Flash) {cmd : List (BitVec 8)} (tx : List (BitVec 8)) (n : Nat)
    (haddr : ¬ Addressed (cmd.headD 0)) (hswitch : NoSwitch cmd) :
    Quiet f (f.spicTransfer cmd tx n).1 :=
  ⟨status_spicTransfer f tx n haddr, spicTransfer_addr4 f tx n hswitch⟩

theorem quiet_raspiReadSr (f : Flash) : Quiet f f.raspiReadSr.1 :=
  quiet_spicTransfer f _ _ (by decide) (by decide)

theorem quiet_raspiWriteSr (f : Flash) (val : BitVec 8) : Quiet f (f.raspiWriteSr val) :=
  quiet_spicTransfer f _ _ (by decide) (by decide)

theorem quiet_raspiWriteEnable (f : Flash) : Quiet f f.raspiWriteEnable :=
  quiet_spicTransfer f _ _ (by decide) (by decide)

theorem quiet_raspiWriteDisable (f : Flash) : Quiet f f.raspiWriteDisable :=
  quiet_spicTransfer f _ _ (by decide) (by decide)

theorem quiet_raspiUnprotect (f : Flash) : Quiet f f.raspiUnprotect := by
  have hread := quiet_raspiReadSr f
  unfold raspiUnprotect
  revert hread
  rcases f.raspiReadSr with ⟨g, _ | sr⟩
  · exact id
  · intro hread
    dsimp only
    split
    · exact hread.trans (quiet_raspiWriteSr g 0)
    · exact hread

theorem quiet_waitLoop (n : Nat) (f : Flash) : Quiet f (waitLoop n f).1 := by
  induction n generalizing f with
  | zero => exact .refl f
  | succ n ih =>
    have hread := quiet_raspiReadSr f
    unfold waitLoop
    revert hread
    rcases f.raspiReadSr with ⟨g, _ | sr⟩
    · exact id
    · intro hread
      dsimp only
      split
      · exact hread
      · exact hread.trans (ih g)

theorem quiet_raspiWaitReady (f : Flash) (sleepMs : Nat) : Quiet f (f.raspiWaitReady sleepMs).1 :=
  quiet_waitLoop _ f

theorem quiet_raspiWaitSleepReady (f : Flash) (sleepMs : Nat) :
    Quiet f (f.raspiWaitSleepReady sleepMs).1 :=
  quiet_waitLoop _ f

theorem quiet_enabled (f : Flash) : Quiet f f.raspiWriteEnable.raspiUnprotect :=
  (quiet_raspiWriteEnable f).trans (quiet_raspiUnprotect _)

/-! ## The address mode -/

theorem status_raspi4byteMode (f : Flash) (enable : Bool) :
    Status f (f.raspi4byteMode enable).1 := by
  have hwait := (quiet_raspiWaitReady f 1).toStatus
  refine hwait.trans ?_
  unfold raspi4byteMode
  dsimp only
  split
  · refine (status_spicTransfer _ _ _ ?_).trans (status_spicTransfer _ _ _ ?_)
    · exact (by decide : ¬ Addressed opcodeBrwr)
    · exact (by decide : ¬ Addressed opcodeBrrd)
  · cases enable
    · exact status_spicTransfer _ _ _ (by decide)
    · exact status_spicTransfer _ _ _ (by decide)

/-- The commands that switch the address mode always go through, and the chip carries them out. -/
def SwitchesSucceed (f : Flash) : Prop :=
  ∀ opcode ∈ [opcodeBrwr, opcodeEn4b, opcodeEx4b], ∀ n,
    (∀ i, (f.answers opcode n).busy i = false) ∧ (f.answers opcode n).obeyed = true

theorem SwitchesSucceed.of_answers (h : f.SwitchesSucceed) (ha : f'.answers = f.answers) :
    f'.SwitchesSucceed := by
  unfold SwitchesSucceed
  rw [ha]
  exact h

theorem shifted_of_ready {busy : Nat → Bool} (h : ∀ i, busy i = false) (i n : Nat) :
    shifted busy i n = n := by
  induction n generalizing i with
  | zero => rfl
  | succ n ih => simp [shifted, h, ih]

theorem spicResult_of_ready {a : Answer} (h : ∀ i, a.busy i = false) (nCmd nBuf : Nat) :
    spicResult a nCmd nBuf = nBuf := by
  simp [spicResult, shifted_of_ready h]

theorem spicTransfer_switched (h : f.SwitchesSucceed) {opcode : BitVec 8}
    (hop : opcode ∈ [opcodeBrwr, opcodeEn4b, opcodeEx4b]) (tx : List (BitVec 8)) (n : Nat) :
    (f.spicTransfer [opcode] tx n).1.addr4 = switched f.chip.id f.addr4 [opcode] tx := by
  obtain ⟨hready, hobeyed⟩ := h opcode hop (f.count opcode)
  simp [spicTransfer, spicResult_of_ready hready, hobeyed]

theorem switched_code {id : BitVec 8} (hid : id ≠ 0x01) (enable addr4 : Bool)
    (tx : List (BitVec 8)) :
    switched id addr4 [if enable then opcodeEn4b else opcodeEx4b] tx = enable := by
  unfold switched
  rw [if_neg hid]
  cases enable <;> rfl

theorem raspi4byteMode_addr4 (h : f.SwitchesSucceed) (enable : Bool) :
    (f.raspi4byteMode enable).1.addr4 = enable := by
  have hwait := quiet_raspiWaitReady f 1
  have h' := h.of_answers hwait.answers
  unfold raspi4byteMode
  dsimp only
  split
  next hid =>
    have hbr : (raspiWriteRg (f.raspiWaitReady 1).1 (if enable then 0x81 else 0)
        opcodeBrwr).addr4 = enable := by
      refine (spicTransfer_switched h' (by decide) _ _).trans ?_
      cases enable <;> simp [switched, hid]
    exact (spicTransfer_addr4 _ _ _ (by decide)).trans hbr
  next hid =>
    cases enable
    · exact (spicTransfer_switched h' (by decide) _ _).trans (switched_code hid false _ _)
    · exact (spicTransfer_switched h' (by decide) _ _).trans (switched_code hid true _ _)

end Flash

end RalinkSdk.Spi
