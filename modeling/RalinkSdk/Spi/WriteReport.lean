import Mathlib.Algebra.Order.BigOperators.Group.List
import Mathlib.Data.List.Pairwise
import Mathlib.Tactic.Ring
import RalinkSdk.Spi.Steps

/-!
# What a write of the SPI flash driver reports

`ramtd_write` cuts a request at the pages of the flash and sends a program command for each.  A
command that ends after some of its bytes ends the call with `-EIO`.  One that ends before its
first byte, or in the command itself, is taken for one that went well: nothing is counted, and the
loop goes on to the next page and to the result 0.

So the call reports the truth exactly when no program command fails that way, or some later or
earlier one is cut short.
-/

namespace RalinkSdk.Spi

open List Nat

/-! ## The request -/

/-- The value of an address, most significant byte first. -/
def addrValue (bytes : List (BitVec 8)) : Nat := bytes.foldl (fun a b => a * 256 + b.toNat) 0

def Transfer.address (t : Transfer) : Nat := addrValue t.cmd.tail

/-- The transfer is a program command that hands the chip this byte for this address, does not
    cross a page, and completed in full. -/
structure Transfer.Programs (t : Transfer) (addr : Nat) (byte : BitVec 8) : Prop where
  opcode : t.opcode = opcodePp
  le : t.address ≤ addr
  byte : t.tx[addr - t.address]? = some byte
  inPage : t.address % flashPagesize + t.tx.length ≤ flashPagesize
  full : t.ret = t.tx.length

/-- The program commands among transfers. -/
def programs (ts : List Transfer) : List Transfer := ts.filter (·.opcode = opcodePp)

/-- The bytes that program commands took. -/
def programmed (ts : List Transfer) : Nat := ((programs ts).map (·.ret.toNat)).sum

/-- The bytes that program commands took which completed in full. -/
def programmedInFull (ts : List Transfer) : Nat :=
  ((programs ts).map fun t => if t.ret = t.tx.length then t.tx.length else 0).sum

namespace Flash

/-- The write returns 0 only if every byte was programmed, and `*retlen` is the number of bytes
    programmed. -/
def ReportsTruth (number : List Transfer → Nat) (f : Flash) (start : Nat)
    (buf : List (BitVec 8)) : Prop :=
  ∀ f' ret retlen, f.ramtdWrite start buf = some (f', ret, retlen) →
    (ret = 0 → ∀ j (hj : j < buf.length), ∃ t ∈ f'.sent.drop f.sent.length,
      t.Programs (start + j) buf[j]) ∧
    retlen = number (f'.sent.drop f.sent.length)

/-! ## Pages and their outcomes -/

/-- The part of a request in one page. -/
structure Page where
  addr : Nat
  data : List (BitVec 8)

/-- The parts of a request, with `room` bytes left in the page of `start`. -/
def pages : Nat → Nat → Nat → List (BitVec 8) → List Page
  | 0, _, _, _ => []
  | fuel + 1, start, room, buf =>
    if buf = [] then []
    else
      let pageSize := min buf.length room
      ⟨start, buf.take pageSize⟩ :: pages fuel (start + pageSize) flashPagesize (buf.drop pageSize)

/-- A page with the result of its program command. -/
structure Outcome where
  page : Page
  ret : Int

namespace Outcome

/-- The command ended after some of its bytes. -/
def Short (o : Outcome) : Prop := 0 < o.ret ∧ o.ret < o.page.data.length

instance (o : Outcome) : Decidable o.Short := inferInstanceAs (Decidable (_ ∧ _))

/-- The command took all its bytes. -/
def Full (o : Outcome) : Prop := o.ret = o.page.data.length

instance (o : Outcome) : Decidable o.Full := inferInstanceAs (Decidable (_ = _))

end Outcome

variable (f : Flash)

/-- What becomes of the pages, the first with the `k`-th page program of the driver. -/
def outcomes : Nat → List Page → List Outcome
  | _, [] => []
  | k, p :: ps =>
    ⟨p, spicResult (f.answers opcodePp k) (1 + f.chip.addrBytes) p.data.length⟩ ::
      outcomes (k + 1) ps

/-- What becomes of the pages of a request. -/
def writeOutcomes (start : Nat) (buf : List (BitVec 8)) : List Outcome :=
  f.outcomes (f.count opcodePp)
    (pages buf.length start (flashPagesize - start % flashPagesize) buf)

/-- The outcomes that the loop gets to see: it ends at the first short one. -/
def made : List Outcome → List Outcome
  | [] => []
  | o :: os => if o.Short then [o] else o :: made os

/-- The bytes that the commands took. -/
def taken (os : List Outcome) : Nat := (os.map (·.ret.toNat)).sum

/-- The program command of a page. -/
def programOf (o : Outcome) : Transfer :=
  ⟨f.command opcodePp o.page.addr, o.page.data, o.ret, f.addr4⟩

/-- The write gets as far as its loop. -/
def GoesOn (start : Nat) (buf : List (BitVec 8)) : Prop :=
  f.locked = false ∧ buf ≠ [] ∧ start + buf.length ≤ f.chip.size ∧
    ({ f with locked := true }.raspiWaitReady 2).2 = true

instance (start : Nat) (buf : List (BitVec 8)) : Decidable (f.GoesOn start buf) :=
  inferInstanceAs (Decidable (_ ∧ _ ∧ _ ∧ _))

/-! ## Results of transfers -/

section

variable {f}

theorem shifted_le (busy : Nat → Bool) (i n : Nat) : shifted busy i n ≤ n := by
  induction n generalizing i with
  | zero => exact Nat.le_refl 0
  | succ n ih =>
    unfold shifted
    split
    · exact Nat.zero_le _
    · exact succ_le_succ (ih (i + 1))

theorem spicResult_le (a : Answer) (nCmd nBuf : Nat) : spicResult a nCmd nBuf ≤ nBuf := by
  have hle := shifted_le a.busy nCmd nBuf
  unfold spicResult
  split <;> omega

theorem ret_le_of_mem_outcomes {k : Nat} {ps : List Page} {o : Outcome}
    (ho : o ∈ f.outcomes k ps) : o.ret ≤ o.page.data.length := by
  induction ps generalizing k with
  | nil => cases ho
  | cons p ps ih =>
    rcases mem_cons.mp ho with rfl | ho
    · exact spicResult_le _ _ _
    · exact ih ho

theorem map_page_outcomes (k : Nat) (ps : List Page) : (f.outcomes k ps).map (·.page) = ps := by
  induction ps generalizing k with
  | nil => rfl
  | cons p ps ih => simp only [outcomes, map_cons, ih]

theorem mem_of_mem_made {o : Outcome} {os : List Outcome} (ho : o ∈ made os) : o ∈ os := by
  induction os with
  | nil => exact ho
  | cons o' os ih =>
    unfold made at ho
    split at ho
    · obtain rfl := mem_singleton.mp ho
      exact mem_cons_self
    · rcases mem_cons.mp ho with rfl | ho
      · exact mem_cons_self
      · exact mem_cons_of_mem _ (ih ho)

theorem made_eq_self {os : List Outcome} (h : ∀ o ∈ os, ¬ o.Short) : made os = os := by
  induction os with
  | nil => rfl
  | cons o os ih =>
    rw [made, if_neg (h o mem_cons_self)]
    exact congrArg (o :: ·) (ih fun o' ho' => h o' (mem_cons_of_mem _ ho'))

theorem exists_short_made {os : List Outcome} (h : ∃ o ∈ os, o.Short) : ∃ o ∈ made os, o.Short := by
  induction os with
  | nil => exact h
  | cons o os ih =>
    unfold made
    by_cases ho : o.Short
    · rw [if_pos ho]
      exact ⟨o, mem_cons_self, ho⟩
    · rw [if_neg ho]
      obtain ⟨o', ho', hshort⟩ := h
      rcases mem_cons.mp ho' with rfl | ho'
      · exact absurd hshort ho
      · obtain ⟨o₂, ho₂, h₂⟩ := ih ⟨o', ho', hshort⟩
        exact ⟨o₂, mem_cons_of_mem _ ho₂, h₂⟩

end

/-! ## Addresses -/

section

variable {f}

theorem foldl_addrBytes (addr n a : Nat) :
    (addrBytes addr n).foldl (fun a b => a * 256 + b.toNat) a = a * 256 ^ n + addr % 256 ^ n := by
  induction n generalizing a with
  | zero => simp [addrBytes, mod_one]
  | succ n ih =>
    have hbyte : (BitVec.ofNat 8 (addr / 256 ^ n)).toNat = addr / 256 ^ n % 256 :=
      BitVec.toNat_ofNat _ _
    rw [addrBytes, foldl_cons, ih, hbyte, mod_pow_succ]
    ring

theorem addrValue_addrBytes {addr n : Nat} (h : addr < 256 ^ n) :
    addrValue (addrBytes addr n) = addr := by
  have hfold := foldl_addrBytes addr n 0
  rw [addrValue, hfold, mod_eq_of_lt h, Nat.zero_mul, Nat.zero_add]

theorem length_addrBytes (addr n : Nat) : (addrBytes addr n).length = n := by
  induction n with
  | zero => rfl
  | succ n ih => rw [addrBytes, length_cons, ih]

theorem size_le_pow (chip : ChipInfo) : chip.size ≤ 256 ^ chip.addrBytes := chip.fits

theorem address_programOf {o : Outcome} (h : o.page.addr < f.chip.size) :
    (f.programOf o).address = o.page.addr :=
  addrValue_addrBytes (lt_of_lt_of_le h (size_le_pow f.chip))

end

/-! ## The parts of a request -/

section

variable {fuel start room : Nat} {buf : List (BitVec 8)}

theorem mem_pages (hroom : 0 < room) (hpage : start % flashPagesize + room = flashPagesize)
    {p : Page} (hp : p ∈ pages fuel start room buf) :
    p.data ≠ [] ∧ start ≤ p.addr ∧ p.addr + p.data.length ≤ start + buf.length ∧
      p.addr % flashPagesize + p.data.length ≤ flashPagesize := by
  induction fuel generalizing start room buf with
  | zero => cases hp
  | succ fuel ih =>
    unfold pages at hp
    split at hp
    · cases hp
    next hbuf =>
      have hpos : 0 < buf.length := length_pos_iff.mpr hbuf
      rcases mem_cons.mp hp with rfl | hp
      · refine ⟨?_, le_refl _, ?_, ?_⟩
        · exact ne_nil_of_length_pos (by simp only [length_take]; omega)
        · simp only [length_take]
          omega
        · simp only [length_take]
          omega
      · by_cases hlast : buf.length ≤ room
        · rw [Nat.min_eq_left hlast, drop_length] at hp
          cases fuel <;> simp [pages] at hp
        · rw [Nat.min_eq_right (Nat.le_of_not_le hlast)] at hp
          have hmod : (start + room) % flashPagesize = 0 := by
            unfold flashPagesize at hpage ⊢
            omega
          obtain ⟨hne, hle, hend, hin⟩ :=
            ih (by decide) (by rw [hmod, Nat.zero_add]) hp
          rw [length_drop] at hend
          exact ⟨hne, by omega, by omega, hin⟩

theorem pairwise_pages (hroom : 0 < room) (hpage : start % flashPagesize + room = flashPagesize) :
    (pages fuel start room buf).Pairwise fun p q => p.addr + p.data.length ≤ q.addr := by
  induction fuel generalizing start room buf with
  | zero => exact List.Pairwise.nil
  | succ fuel ih =>
    unfold pages
    split
    · exact List.Pairwise.nil
    · dsimp only
      by_cases hlast : buf.length ≤ room
      · rw [Nat.min_eq_left hlast, drop_length]
        cases fuel <;> simp [pages]
      · rw [Nat.min_eq_right (Nat.le_of_not_le hlast)]
        have hmod : (start + room) % flashPagesize + flashPagesize = flashPagesize := by
          unfold flashPagesize at hpage ⊢
          omega
        refine List.Pairwise.cons ?_ (ih (by decide) hmod)
        intro q hq
        have hle := (mem_pages (by decide) hmod hq).2.1
        simp only [length_take]
        omega

theorem exists_page (hroom : 0 < room) (hfuel : buf.length ≤ fuel) {j : Nat}
    (hj : j < buf.length) : ∃ p ∈ pages fuel start room buf,
      p.addr ≤ start + j ∧ p.data[start + j - p.addr]? = some buf[j] := by
  induction fuel generalizing start room buf j with
  | zero => omega
  | succ fuel ih =>
    have hbuf : buf ≠ [] := ne_nil_of_length_pos (by omega)
    rw [pages, if_neg hbuf]
    dsimp only
    by_cases hfirst : j < min buf.length room
    · refine ⟨_, mem_cons_self, Nat.le_add_right _ _, ?_⟩
      simp only [Nat.add_sub_cancel_left]
      rw [getElem?_take_of_lt hfirst, getElem?_eq_getElem hj]
    · have hrest : j - min buf.length room < (buf.drop (min buf.length room)).length := by
        rw [length_drop]
        omega
      have hlen : (buf.drop (min buf.length room)).length ≤ fuel := by
        rw [length_drop]
        omega
      obtain ⟨p, hp, hle, hbyte⟩ := @ih (start + min buf.length room) flashPagesize
        (buf.drop (min buf.length room)) (by decide) hlen _ hrest
      have hat : start + min buf.length room + (j - min buf.length room) = start + j := by omega
      have hidx : min buf.length room + (j - min buf.length room) = j := by omega
      rw [hat] at hle hbyte
      refine ⟨p, mem_cons_of_mem _ hp, hle, ?_⟩
      rw [hbyte, getElem_drop]
      simp only [hidx]

end

/-! ## The loop -/

section

variable {f}

theorem count_eq_length_programs : f.count opcodePp = (programs f.sent).length := rfl

theorem programs_append (ts ts' : List Transfer) :
    programs (ts ++ ts') = programs ts ++ programs ts' :=
  filter_append ..

theorem programs_eq_nil {ts : List Transfer} (h : ∀ t ∈ ts, ¬ Addressed t.opcode) :
    programs ts = [] :=
  filter_eq_nil_iff.mpr fun t ht hpp => h t ht (.inr (.inl (of_decide_eq_true hpp)))

theorem noSwitch_command (opcode : BitVec 8) (addr : Nat) : NoSwitch (f.command opcode addr) := by
  have hlen : (f.command opcode addr).length ≠ 1 := by
    rw [command, length_cons, length_addrBytes, ChipInfo.addrBytes]
    split <;> decide
  exact ⟨fun h => hlen (by rw [h]; rfl), fun h => hlen (by rw [h]; rfl),
    fun h => hlen (by rw [h]; rfl)⟩

/-- Between `f` and `f'` the driver has sent the program commands of `os`. -/
structure Wrote (os : List Outcome) (f f' : Flash) : Prop where
  chip : f'.chip = f.chip
  answers : f'.answers = f.answers
  addr4 : f'.addr4 = f.addr4
  sent : ∃ ts, f'.sent = f.sent ++ ts ∧ programs ts = os.map f.programOf ∧
    ∀ t ∈ ts, Addressed t.opcode → t.opcode = opcodePp

variable {f' f'' : Flash} {os os' : List Outcome}

theorem wrote_up (f : Flash) : Wrote [] f f.up :=
  ⟨rfl, rfl, rfl, [], (append_nil _).symm, rfl, by simp⟩

theorem Quiet.wrote (h : Quiet f f') : Wrote [] f f' := by
  obtain ⟨ts, hsent, hts⟩ := h.sent
  exact ⟨h.chip, h.answers, h.addr4, ts, hsent, programs_eq_nil hts,
    fun t ht haddr => absurd haddr (hts t ht)⟩

theorem Wrote.trans (h : Wrote os f f') (h' : Wrote os' f' f'') : Wrote (os ++ os') f f'' := by
  have hprog : f'.programOf = f.programOf := by
    funext o
    simp only [programOf, command, h.chip, h.addr4]
  obtain ⟨ts, hsent, hts, honly⟩ := h.sent
  obtain ⟨ts', hsent', hts', honly'⟩ := h'.sent
  refine ⟨h'.chip.trans h.chip, h'.answers.trans h.answers, h'.addr4.trans h.addr4, ts ++ ts',
    ?_, ?_, ?_⟩
  · rw [hsent', hsent, append_assoc]
  · rw [programs_append, hts, hts', hprog, map_append]
  · intro t ht
    rcases mem_append.mp ht with ht | ht
    · exact honly t ht
    · exact honly' t ht

theorem Wrote.count (h : Wrote os f f') : f'.count opcodePp = f.count opcodePp + os.length := by
  obtain ⟨ts, hsent, hts, -⟩ := h.sent
  rw [count_eq_length_programs, count_eq_length_programs, hsent, programs_append, hts,
    length_append, length_map]

theorem Wrote.outcomes (h : Wrote os f f') (k : Nat) (ps : List Page) :
    f'.outcomes k ps = f.outcomes k ps := by
  induction ps generalizing k with
  | nil => rfl
  | cons p ps ih => simp only [Flash.outcomes, ih, h.answers, h.chip]

theorem wrote_spicWrite (f : Flash) (p : Page) :
    let r := f.spicWrite (f.command opcodePp p.addr) p.data
    let o : Outcome := ⟨p, spicResult (f.answers opcodePp (f.count opcodePp))
      (1 + f.chip.addrBytes) p.data.length⟩
    r.2 = o.ret ∧ Wrote [o] f r.1 := by
  have hlen : (f.command opcodePp p.addr).length = 1 + f.chip.addrBytes := by
    rw [command, length_cons, length_addrBytes, Nat.add_comm]
  have hret : (f.spicWrite (f.command opcodePp p.addr) p.data).2 =
      spicResult (f.answers opcodePp (f.count opcodePp)) (1 + f.chip.addrBytes) p.data.length := by
    rw [← hlen]
    rfl
  refine ⟨hret, rfl, rfl, spicTransfer_addr4 f _ _ (noSwitch_command _ _), ?_⟩
  exact ⟨[⟨f.command opcodePp p.addr, p.data,
    (f.spicWrite (f.command opcodePp p.addr) p.data).2, f.addr4⟩], rfl, by rw [hret]; rfl, by
      intro t ht _
      obtain rfl := mem_singleton.mp ht
      rfl⟩

theorem writeLoop_spec (fuel : Nat) (f : Flash) (start room : Nat) (buf : List (BitVec 8))
    (count retlen : Nat) :
    let w := writeLoop fuel f start room buf count retlen
    let os := f.outcomes (f.count opcodePp) (pages fuel start room buf)
    Wrote (made os) f w.flash ∧ (w.through = true ↔ ∀ o ∈ os, ¬ o.Short) ∧
      w.retlen = retlen + taken (made os) := by
  induction fuel generalizing f start room buf count retlen with
  | zero => exact ⟨(Quiet.refl f).wrote, by simp [writeLoop, pages, outcomes], rfl⟩
  | succ fuel ih =>
    dsimp only
    by_cases hbuf : buf = []
    · simp only [writeLoop, pages, hbuf, if_true]
      exact ⟨(Quiet.refl f).wrote, by simp [outcomes], rfl⟩
    · simp only [writeLoop, pages, hbuf, if_false]
      set n := min buf.length room
      have hn : (buf.take n).length = n := by
        rw [length_take]
        omega
      have hquiet : Quiet f (f.raspiWaitReady 3).1.raspiWriteEnable.raspiUnprotect :=
        (quiet_raspiWaitReady f 3).trans (quiet_enabled _)
      set g := (f.raspiWaitReady 3).1.raspiWriteEnable.raspiUnprotect
      obtain ⟨hret, hwrote⟩ := wrote_spicWrite g ⟨start, buf.take n⟩
      set o : Outcome := ⟨⟨start, buf.take n⟩, spicResult (g.answers opcodePp (g.count opcodePp))
        (1 + g.chip.addrBytes) (buf.take n).length⟩ with ho
      have hfirst : Wrote [o] f (g.spicWrite (g.command opcodePp start) (buf.take n)).1 :=
        hquiet.wrote.trans hwrote
      have hos : f.outcomes (f.count opcodePp)
          (⟨start, buf.take n⟩ :: pages fuel (start + n) flashPagesize (buf.drop n)) =
          o :: f.outcomes (f.count opcodePp + 1)
            (pages fuel (start + n) flashPagesize (buf.drop n)) := by
        rw [ho, hquiet.answers, hquiet.chip, hquiet.wrote.count]
        rfl
      have hshort : (0 < o.ret ∧ o.ret < n) ↔ o.Short := by
        rw [Outcome.Short, ho, hn]
      have hadd : (if 0 < o.ret then retlen + o.ret.toNat else retlen) = retlen + o.ret.toNat := by
        split
        · rfl
        · omega
      rw [hos, hret, hadd]
      by_cases hs : o.Short
      · -- the loop ends here
        rw [if_pos (hshort.mpr hs), made, if_pos hs]
        refine ⟨?_, ?_, ?_⟩
        · exact hfirst.trans ((wrote_up _).trans (quiet_raspiWriteDisable _).wrote)
        · simp [hs]
        · simp [taken]
      · rw [if_neg fun h => hs (hshort.mp h), made, if_neg hs]
        set g₁ := (g.spicWrite (g.command opcodePp start) (buf.take n)).1
        have hsleep : Quiet g₁
            (if (count + 1) % 16 = 0 then (g₁.raspiWaitSleepReady 1).1 else g₁) := by
          split
          · exact quiet_raspiWaitSleepReady g₁ 1
          · exact .refl g₁
        have hround := hfirst.trans hsleep.wrote
        rw [append_nil] at hround
        obtain ⟨hrest, hthrough, hlen⟩ := ih _ (start + n) flashPagesize (buf.drop n) (count + 1)
          (retlen + o.ret.toNat)
        rw [hround.count, hround.outcomes] at hrest hthrough hlen
        refine ⟨hround.trans hrest, ?_, ?_⟩
        · rw [hthrough]
          simp [hs]
        · rw [hlen]
          simp only [taken, length_singleton, map_cons, sum_cons]
          omega

end

/-! ## The call -/

section

variable {f} {start : Nat} {buf : List (BitVec 8)}

/-- What a write does that gets as far as its loop. -/
structure Answered (f : Flash) (os : List Outcome) (f' : Flash) (ret : Int) (retlen : Nat) :
    Prop where
  sent : ∃ g ts, f'.sent = f.sent ++ ts ∧ g.chip = f.chip ∧
    programs ts = (made os).map (programOf g)
  ret : ret = 0 ↔ ∀ o ∈ os, ¬ o.Short
  retlen : retlen = taken (made os)

theorem outcomes_congr {g : Flash} (hchip : g.chip = f.chip) (hanswers : g.answers = f.answers)
    (k : Nat) (ps : List Page) : g.outcomes k ps = f.outcomes k ps := by
  induction ps generalizing k with
  | nil => rfl
  | cons p ps ih => simp only [outcomes, ih, hanswers, hchip]

theorem Status.count {g : Flash} (h : Status f g) : g.count opcodePp = f.count opcodePp := by
  obtain ⟨ts, hsent, hts⟩ := h.sent
  rw [count_eq_length_programs, count_eq_length_programs, hsent, programs_append,
    programs_eq_nil hts, append_nil]

theorem status_if_raspi4byteMode (f : Flash) (enable : Bool) :
    Status f (if f.chip.addr4b then (f.raspi4byteMode enable).1 else f) := by
  split
  · exact status_raspi4byteMode f enable
  · exact .refl f

/-- The state in which the loop begins. -/
def loopStart (f : Flash) : Flash :=
  let g := (f.raspiWaitReady 2).1.raspiWriteEnable
  if g.chip.addr4b then (g.raspi4byteMode true).1 else g

theorem status_loopStart (f : Flash) : Status f f.loopStart :=
  ((quiet_raspiWaitReady f 2).trans (quiet_raspiWriteEnable _)).toStatus.trans
    (status_if_raspi4byteMode _ true)

theorem writeLocked_of_ready {f : Flash} (hready : (f.raspiWaitReady 2).2 = true) :
    f.writeLocked start buf =
      let room := flashPagesize - start % flashPagesize
      let w := writeLoop buf.length f.loopStart start room buf 0 0
      if w.through then
        ((if w.flash.chip.addr4b then (w.flash.raspi4byteMode false).1
          else w.flash).raspiWriteDisable.up, 0, w.retlen)
      else (w.flash, -eio, w.retlen) := by
  unfold writeLocked
  exact if_pos hready

theorem writeOutcomes_locked (f : Flash) (b : Bool) (start : Nat) (buf : List (BitVec 8)) :
    writeOutcomes { f with locked := b } start buf = f.writeOutcomes start buf := by
  unfold writeOutcomes
  exact @outcomes_congr f { f with locked := b } rfl rfl _ _

theorem answered_writeLocked (f : Flash) (start : Nat) (buf : List (BitVec 8))
    (hready : (f.raspiWaitReady 2).2 = true) :
    Answered f (f.writeOutcomes start buf) (f.writeLocked start buf).1
      (f.writeLocked start buf).2.1 (f.writeLocked start buf).2.2 := by
  have hg := status_loopStart f
  have hspec := writeLoop_spec buf.length f.loopStart start
    (flashPagesize - start % flashPagesize) buf 0 0
  rw [hg.count, outcomes_congr hg.chip hg.answers] at hspec
  obtain ⟨hwrote, hthrough, hretlen⟩ := hspec
  rw [writeLocked_of_ready hready]
  set w := writeLoop buf.length f.loopStart start (flashPagesize - start % flashPagesize) buf 0 0
  obtain ⟨ts, hsent, hts⟩ := hg.sent
  obtain ⟨ts', hsent', hts', -⟩ := hwrote.sent
  have hsum : w.retlen = taken (made (f.writeOutcomes start buf)) := by
    rw [hretlen, Nat.zero_add]
    rfl
  dsimp only
  by_cases hw : w.through
  · rw [if_pos hw]
    have hend := (status_if_raspi4byteMode w.flash false).trans
      (quiet_raspiWriteDisable _).toStatus
    obtain ⟨ts'', hsent'', hts''⟩ := hend.sent
    refine ⟨⟨f.loopStart, ts ++ ts' ++ ts'', ?_, hg.chip, ?_⟩, ?_, hsum⟩
    · refine hsent''.trans ?_
      rw [hsent', hsent]
      simp only [append_assoc]
    · rw [programs_append, programs_append, programs_eq_nil hts, programs_eq_nil hts'', hts',
        nil_append, append_nil]
      rfl
    · exact iff_of_true rfl (hthrough.mp hw)
  · rw [if_neg hw]
    refine ⟨⟨f.loopStart, ts ++ ts', ?_, hg.chip, ?_⟩, ?_, hsum⟩
    · rw [hsent', hsent, append_assoc]
    · rw [programs_append, programs_eq_nil hts, hts', nil_append]
      rfl
    · exact iff_of_false (by simp [eio]) fun h => hw (hthrough.mpr h)

theorem ramtdWrite_of_goesOn (h : f.GoesOn start buf) :
    ∃ f' ret retlen, f.ramtdWrite start buf = some (f', ret, retlen) ∧
      Answered f (f.writeOutcomes start buf) f' ret retlen := by
  obtain ⟨hfree, hbuf, hsize, hready⟩ := h
  have hdown : f.down = some { f with locked := true } := if_neg (by simp [hfree])
  have hanswered := answered_writeLocked { f with locked := true } start buf hready
  rw [writeOutcomes_locked] at hanswered
  refine ⟨_, _, _, ?_, ⟨hanswered.sent, hanswered.ret, hanswered.retlen⟩⟩
  rw [ramtdWrite, if_neg hbuf, if_neg (Nat.not_lt.mpr hsize), hdown]
  rfl

theorem ramtdWrite_of_not_goesOn (h : ¬ f.GoesOn start buf) {f' : Flash} {ret : Int} {retlen : Nat}
    (hrun : f.ramtdWrite start buf = some (f', ret, retlen)) : (ret = 0 → buf = []) ∧ retlen = 0 ∧
      ∃ ts, f'.sent = f.sent ++ ts ∧ ∀ t ∈ ts, ¬ Addressed t.opcode := by
  unfold ramtdWrite at hrun
  split at hrun
  next hbuf =>
    cases hrun
    exact ⟨fun _ => hbuf, rfl, [], by simp, by simp⟩
  next hbuf =>
    split at hrun
    · cases hrun
      exact ⟨fun h => absurd h (by decide), rfl, [], by simp, by simp⟩
    next hsize =>
      unfold down at hrun
      split at hrun
      · cases hrun
      next hfree =>
        have hready : ({ f with locked := true }.raspiWaitReady 2).2 = false :=
          Bool.eq_false_iff.mpr fun hready =>
            h ⟨Bool.eq_false_iff.mpr hfree, hbuf, Nat.not_lt.mp hsize, hready⟩
        have hcall : writeLocked { f with locked := true } start buf =
            (({ f with locked := true }.raspiWaitReady 2).1.up, -1, 0) := by
          unfold writeLocked
          exact if_neg (by simp [hready])
        rw [Option.map_some, hcall] at hrun
        cases hrun
        exact ⟨fun h => absurd h (by decide), rfl,
          (quiet_raspiWaitReady { f with locked := true } 2).sent⟩

end

/-! ## When the report is true -/

section

variable {f} {start : Nat} {buf : List (BitVec 8)}

theorem room_pos (start : Nat) : 0 < flashPagesize - start % flashPagesize := by
  unfold flashPagesize
  omega

theorem room_add (start : Nat) :
    start % flashPagesize + (flashPagesize - start % flashPagesize) = flashPagesize := by
  unfold flashPagesize
  omega

theorem page_of_mem_writeOutcomes {o : Outcome} (ho : o ∈ f.writeOutcomes start buf) :
    o.page.data ≠ [] ∧ start ≤ o.page.addr ∧
      o.page.addr + o.page.data.length ≤ start + buf.length ∧
      o.page.addr % flashPagesize + o.page.data.length ≤ flashPagesize := by
  have hp := mem_map_of_mem (f := Outcome.page) ho
  rw [writeOutcomes, map_page_outcomes] at hp
  exact mem_pages (room_pos start) (room_add start) hp

/-- The pages of two outcomes share no byte. -/
def Outcome.Apart (o o' : Outcome) : Prop :=
  o.page.addr + o.page.data.length ≤ o'.page.addr ∨
    o'.page.addr + o'.page.data.length ≤ o.page.addr

instance : Std.Symm Outcome.Apart := ⟨fun _ _ h => h.symm⟩

theorem apart_of_mem_writeOutcomes {o o' : Outcome} (ho : o ∈ f.writeOutcomes start buf)
    (ho' : o' ∈ f.writeOutcomes start buf) (hne : o ≠ o') : o.Apart o' := by
  have hpair : (f.writeOutcomes start buf).Pairwise fun o o' =>
      o.page.addr + o.page.data.length ≤ o'.page.addr := by
    rw [← pairwise_map (f := Outcome.page)
      (R := fun p q => p.addr + p.data.length ≤ q.addr), writeOutcomes, map_page_outcomes]
    exact pairwise_pages (room_pos start) (room_add start)
  have hapart : (f.writeOutcomes start buf).Pairwise Outcome.Apart := hpair.imp fun h => .inl h
  exact hapart.forall ho ho' hne

theorem programs_programOf {g : Flash} (hchip : g.chip = f.chip) {o : Outcome}
    (ho : o ∈ f.writeOutcomes start buf) (hsize : start + buf.length ≤ f.chip.size)
    (hfull : o.Full) {addr : Nat} {byte : BitVec 8} (hle : o.page.addr ≤ addr)
    (hbyte : o.page.data[addr - o.page.addr]? = some byte) :
    (g.programOf o).Programs addr byte := by
  obtain ⟨hne, -, hend, hin⟩ := page_of_mem_writeOutcomes ho
  have hpos := length_pos_iff.mpr hne
  have haddr : (g.programOf o).address = o.page.addr :=
    address_programOf (by rw [hchip]; omega)
  exact ⟨rfl, haddr ▸ hle, haddr ▸ hbyte, haddr ▸ hin, hfull⟩

theorem outcome_of_programs {g : Flash} (hchip : g.chip = f.chip) {o o' : Outcome}
    (ho : o ∈ f.writeOutcomes start buf) (ho' : o' ∈ f.writeOutcomes start buf)
    (hsize : start + buf.length ≤ f.chip.size) {byte : BitVec 8}
    (h : (g.programOf o').Programs o.page.addr byte) : o' = o := by
  obtain ⟨hne, -, -, -⟩ := page_of_mem_writeOutcomes ho
  obtain ⟨hne', -, hend', -⟩ := page_of_mem_writeOutcomes ho'
  have hpos := length_pos_iff.mpr hne
  have hpos' := length_pos_iff.mpr hne'
  have haddr : (g.programOf o').address = o'.page.addr :=
    address_programOf (by rw [hchip]; omega)
  have hle := haddr ▸ h.le
  have hlt := (List.getElem?_eq_some_iff.mp h.byte).1
  rw [haddr] at hlt
  change _ < o'.page.data.length at hlt
  by_contra hoo
  rcases apart_of_mem_writeOutcomes ho ho' (Ne.symm hoo) with hap | hap <;> omega

theorem Answered.programmed {os : List Outcome} {f' : Flash} {ret : Int} {retlen : Nat}
    (h : Answered f os f' ret retlen) : programmed (f'.sent.drop f.sent.length) = retlen := by
  obtain ⟨g, ts, hsent, -, hts⟩ := h.sent
  rw [hsent, drop_left, Spi.programmed, hts, map_map, h.retlen]
  rfl

theorem Answered.programmedInFull {os : List Outcome} {f' : Flash} {ret : Int} {retlen : Nat}
    (h : Answered f os f' ret retlen) (hret : ∀ o ∈ os, o.ret ≤ o.page.data.length) :
    retlen = programmedInFull (f'.sent.drop f.sent.length) ↔ ∀ o ∈ os, ¬ o.Short := by
  obtain ⟨g, ts, hsent, -, hts⟩ := h.sent
  have hsum : Spi.programmedInFull (f'.sent.drop f.sent.length) =
      ((made os).map fun o => if o.Full then o.page.data.length else 0).sum := by
    rw [hsent, drop_left, Spi.programmedInFull, hts, map_map]
    rfl
  rw [hsum, h.retlen, taken]
  constructor
  · intro heq o ho hshort
    obtain ⟨o', ho', hshort'⟩ := exists_short_made ⟨o, ho, hshort⟩
    refine absurd heq (Nat.ne_of_gt (sum_lt_sum _ _ ?_ ⟨o', ho', ?_⟩))
    · intro o₁ _
      split
      next hfull => rw [hfull, Int.toNat_natCast]
      next => exact Nat.zero_le _
    · have hfull : ¬ o'.Full := fun hfull => absurd hshort'.2 (by rw [hfull]; omega)
      rw [if_neg hfull]
      have hpos := hshort'.1
      omega
  · intro hno
    refine congrArg List.sum (map_congr_left fun o ho => ?_)
    have ho := mem_of_mem_made ho
    have hle := hret o ho
    have hns := hno o ho
    unfold Outcome.Short at hns
    split
    next hfull => rw [hfull, Int.toNat_natCast]
    next hfull =>
      unfold Outcome.Full at hfull
      omega

theorem Answered.bytes_iff {f' : Flash} {ret : Int} {retlen : Nat}
    (h : Answered f (f.writeOutcomes start buf) f' ret retlen)
    (hsize : start + buf.length ≤ f.chip.size) :
    (ret = 0 → ∀ j (hj : j < buf.length), ∃ t ∈ f'.sent.drop f.sent.length,
      t.Programs (start + j) buf[j]) ↔
      (∃ o ∈ f.writeOutcomes start buf, o.Short) ∨ ∀ o ∈ f.writeOutcomes start buf, o.Full := by
  obtain ⟨g, ts, hsent, hchip, hts⟩ := h.sent
  rw [hsent, drop_left]
  constructor
  · intro hbytes
    by_contra hcond
    obtain ⟨hshort, hfull⟩ := not_or.mp hcond
    have hno : ∀ o ∈ f.writeOutcomes start buf, ¬ o.Short := fun o ho hs => hshort ⟨o, ho, hs⟩
    apply hfull
    intro o ho
    obtain ⟨hne, hle, hend, -⟩ := page_of_mem_writeOutcomes ho
    have hpos := length_pos_iff.mpr hne
    have hj : o.page.addr - start < buf.length := by omega
    obtain ⟨t, ht, hprog⟩ := hbytes (h.ret.mpr hno) _ hj
    rw [Nat.add_sub_cancel' hle] at hprog
    -- the command is one of the loop's, and only the one of this page has the byte
    have htp : t ∈ programs ts := mem_filter.mpr ⟨ht, decide_eq_true hprog.opcode⟩
    rw [hts] at htp
    obtain ⟨o', ho', rfl⟩ := mem_map.mp htp
    obtain rfl := outcome_of_programs hchip ho (mem_of_mem_made ho') hsize hprog
    exact hprog.full
  · rintro (⟨o, ho, hs⟩ | hfull) h0 j hj
    · exact absurd hs (h.ret.mp h0 o ho)
    · have hmade : made (f.writeOutcomes start buf) = f.writeOutcomes start buf :=
        made_eq_self (h.ret.mp h0)
      obtain ⟨p, hp, hle, hbyte⟩ :=
        @exists_page _ start _ buf (room_pos start) (le_refl _) j hj
      rw [← map_page_outcomes (f := f) (f.count opcodePp) (pages _ _ _ _)] at hp
      obtain ⟨o, ho, rfl⟩ := mem_map.mp hp
      refine ⟨g.programOf o, ?_, programs_programOf hchip ho hsize (hfull o ho) hle hbyte⟩
      have hmem : g.programOf o ∈ programs ts := by
        rw [hts, hmade]
        exact mem_map_of_mem ho
      exact mem_of_mem_filter hmem

theorem reportsTruth_of_not_goesOn {number : List Transfer → Nat}
    (hnumber : ∀ ts, programs ts = [] → number ts = 0) (hgo : ¬ f.GoesOn start buf) :
    ReportsTruth number f start buf := by
  intro f' ret retlen hrun
  obtain ⟨hret, rfl, ts, hsent, hts⟩ := ramtdWrite_of_not_goesOn hgo hrun
  refine ⟨fun h0 j hj => ?_, ?_⟩
  · rw [hret h0] at hj
    exact absurd hj (Nat.not_lt_zero j)
  · rw [hsent, drop_left, hnumber ts (programs_eq_nil hts)]

theorem reportsTruth_programmed_iff (f : Flash) (start : Nat) (buf : List (BitVec 8)) :
    ReportsTruth programmed f start buf ↔
      (f.GoesOn start buf → (∃ o ∈ f.writeOutcomes start buf, o.Short) ∨
        ∀ o ∈ f.writeOutcomes start buf, o.Full) := by
  by_cases hgo : f.GoesOn start buf
  · obtain ⟨f', ret, retlen, hrun, hanswered⟩ := ramtdWrite_of_goesOn hgo
    have hbytes := hanswered.bytes_iff hgo.2.2.1
    constructor
    · intro h _
      exact hbytes.mp (h f' ret retlen hrun).1
    · intro h f₁ ret₁ retlen₁ hrun₁
      rw [hrun] at hrun₁
      cases hrun₁
      exact ⟨hbytes.mpr (h hgo), hanswered.programmed.symm⟩
  · refine iff_of_true (reportsTruth_of_not_goesOn (fun ts hts => ?_) hgo) fun h => absurd h hgo
    rw [programmed, hts]
    rfl

theorem reportsTruth_programmedInFull_iff (f : Flash) (start : Nat) (buf : List (BitVec 8)) :
    ReportsTruth programmedInFull f start buf ↔
      (f.GoesOn start buf → ∀ o ∈ f.writeOutcomes start buf, o.Full) := by
  by_cases hgo : f.GoesOn start buf
  · obtain ⟨f', ret, retlen, hrun, hanswered⟩ := ramtdWrite_of_goesOn hgo
    have hbytes := hanswered.bytes_iff hgo.2.2.1
    have hcount := hanswered.programmedInFull fun o ho => ret_le_of_mem_outcomes ho
    constructor
    · intro h _
      have hno := hcount.mp (h f' ret retlen hrun).2
      rcases hbytes.mp (h f' ret retlen hrun).1 with ⟨o, ho, hs⟩ | hfull
      · exact absurd hs (hno o ho)
      · exact hfull
    · intro h f₁ ret₁ retlen₁ hrun₁
      rw [hrun] at hrun₁
      cases hrun₁
      refine ⟨hbytes.mpr (.inr (h hgo)), hcount.mpr fun o ho hs => ?_⟩
      exact absurd hs.2 (by rw [h hgo o ho]; omega)
  · refine iff_of_true (reportsTruth_of_not_goesOn (fun ts hts => ?_) hgo) fun h => absurd h hgo
    rw [programmedInFull, hts]
    rfl

end

/-- **The report of a write**: it is true exactly when the write does not get as far as its loop or
    every program command completes in full; and where the bytes of a command that is cut short
    are to count, also when there is such a command. -/
theorem ramtdWrite_reportsTruth_iff (f : Flash) (start : Nat) (buf : List (BitVec 8)) :
    (ReportsTruth programmedInFull f start buf ↔
      (f.GoesOn start buf → ∀ o ∈ f.writeOutcomes start buf, o.Full)) ∧
    (ReportsTruth programmed f start buf ↔
      (f.GoesOn start buf → (∃ o ∈ f.writeOutcomes start buf, o.Short) ∨
        ∀ o ∈ f.writeOutcomes start buf, o.Full)) :=
  ⟨reportsTruth_programmedInFull_iff f start buf, reportsTruth_programmed_iff f start buf⟩

theorem eightMegabytes_fit : 64 * 1024 * 128 ≤ 256 ^ (if false then 4 else 3) := by decide

/-- A controller that stays busy in the first program command. -/
def busyInProgram : Flash where
  chip := chip64k 0xc2 0x2017c220 128 false eightMegabytes_fit
  locked := false
  addr4 := false
  answers := fun opcode _ => ⟨fun _ => opcode = opcodePp, fun _ => 0, true⟩
  sent := []

/-- The byte is not written, nothing is counted, and the call returns 0. -/
theorem not_reportsTruth_busyInProgram : ¬ ReportsTruth programmedInFull busyInProgram 0 [0x5a] ∧
      ¬ ReportsTruth programmed busyInProgram 0 [0x5a] := by
  have hgo : busyInProgram.GoesOn 0 [0x5a] := by decide
  rw [reportsTruth_programmedInFull_iff, reportsTruth_programmed_iff]
  exact ⟨fun h => absurd (h hgo) (by decide), fun h => absurd (h hgo) (by decide)⟩

end Flash

end RalinkSdk.Spi
