import RalinkSdk.Nand.Chip

/-!
# Bad-block marks

A block that is marked bad is tagged in the table, and the driver means to mark it on flash
too.  The write goes through `nfc_write_page`, which tags every page it writes as one of a
good block: the mark is gone before it is programmed.  Reading or writing a page of the block
then tags the block as good in the table as well.
-/

namespace RalinkSdk.Nand

open Lib Option BitVec Function Nat List

/-! ## The table -/

theorem getLsbD_of_lt_four {v : BitVec 8} (hv : v.toNat < 4) {j : Nat} (hj : 2 ≤ j) :
    v.getLsbD j = false := by
  apply testBit_lt_two_pow
  calc v.toNat < 2 ^ 2 := hv
    _ ≤ 2 ^ j := Nat.pow_le_pow_right (by decide) hj

theorem getLsbD_field {v : BitVec 8} (hv : v.toNat < 4) {k k' i : Nat} (hk' : k' < 4) (hi : i < 2) :
    (v <<< (2 * k)).getLsbD (2 * k' + i) = (decide (k' = k) && v.getLsbD i) := by
  have hlt : 2 * k' + i < 8 := by omega
  rw [getLsbD_shiftLeft, decide_eq_true hlt, Bool.true_and]
  rcases Nat.lt_trichotomy k' k with hless | rfl | hmore
  · have hbelow : 2 * k' + i < 2 * k := by omega
    simp [hbelow, hless.ne]
  · simp
  · have hhigh := getLsbD_of_lt_four hv (show 2 ≤ 2 * k' + i - 2 * k by omega)
    simp [hhigh, hmore.ne']

theorem ofBits_congr {x y : BitVec 8} (h : ∀ i < 2, x.getLsbD i = y.getLsbD i) :
    BbtTag.ofBits x = BbtTag.ofBits y := by
  have hlow : x &&& 3 = y &&& 3 := by
    apply eq_of_getLsbD_eq
    intro i _
    rw [getLsbD_and, getLsbD_and]
    rcases Nat.lt_or_ge i 2 with hi | hi
    · rw [h i hi]
    · have hmask : (3 : BitVec 8).getLsbD i = false := getLsbD_of_lt_four (by decide) hi
      rw [hmask, Bool.and_false, Bool.and_false]
  unfold BbtTag.ofBits
  rw [hlow]

theorem toBits_lt (t : BbtTag) : t.toBits.toNat < 4 := by
  cases t <;> decide

theorem getLsbD_withTag (x : BitVec 8) (t : BbtTag) {k k' i : Nat} (hk' : k' < 4) (hi : i < 2) :
    (((x &&& ~~~((3 : BitVec 8) <<< (2 * k))) ||| (t.toBits <<< (2 * k))) >>> (2 * k')).getLsbD i =
      if k' = k then t.toBits.getLsbD i else x.getLsbD (2 * k' + i) := by
  have hlt : 2 * k' + i < 8 := by omega
  have hthree : (3 : BitVec 8).getLsbD i = true := by
    rcases Nat.lt_succ_iff_lt_or_eq.mp hi with h | rfl
    · rw [Nat.lt_one_iff.mp h]
      rfl
    · rfl
  rw [getLsbD_ushiftRight, getLsbD_or, getLsbD_and, getLsbD_not,
    getLsbD_field (by decide) hk' hi, getLsbD_field (toBits_lt t) hk' hi, hthree]
  split_ifs with h
  · simp [h]
  · simp [h, hlt]

theorem tag_readback (x : BitVec 8) (t : BbtTag) (k : Fin 4) :
    BbtTag.ofBits (((x &&& ~~~((3 : BitVec 8) <<< (2 * k.val))) |||
      (t.toBits <<< (2 * k.val))) >>> (2 * k.val)) = t := by
  have htag : BbtTag.ofBits t.toBits = t := by
    cases t <;> rfl
  conv_rhs => rw [← htag]
  apply ofBits_congr
  intro i hi
  rw [getLsbD_withTag x t k.isLt hi, if_pos rfl]

theorem tag_frame (x : BitVec 8) (t : BbtTag) (k k' : Fin 4) (hne : k ≠ k') :
    BbtTag.ofBits (((x &&& ~~~((3 : BitVec 8) <<< (2 * k.val))) |||
      (t.toBits <<< (2 * k.val))) >>> (2 * k'.val)) = BbtTag.ofBits (x >>> (2 * k'.val)) := by
  apply ofBits_congr
  intro i hi
  have hother : ¬ k'.val = k.val := fun h => hne (Fin.ext h.symm)
  rw [getLsbD_withTag x t k'.isLt hi, if_neg hother, getLsbD_ushiftRight]

namespace ChipMode

variable (m : ChipMode)

theorem pagesPerblock_pos : 0 < m.pagesPerblock := by
  exact Nat.two_pow_pos _

theorem pageOf_div (offs : Nat) : m.pageOf offs / m.pagesPerblock = m.blockOf offs := by
  unfold pageOf blockOf pagesize pagesPerblock eraseShift
  rw [Nat.div_div_eq_div_mul, ← pow_add]

end ChipMode

namespace RaNandChip

variable {c c' : RaNandChip} {b : Nat}

theorem nandBbtGet_set_self (c : RaNandChip) (b : Nat) (t : BbtTag) :
    (c.nandBbtSet b t).nandBbtGet b = t := by
  have hbits : b * 2 % 8 = 2 * (⟨b % 4, by omega⟩ : Fin 4).val := by
    show b * 2 % 8 = 2 * (b % 4)
    omega
  unfold nandBbtSet nandBbtGet
  dsimp only
  rw [update_self, hbits]
  exact tag_readback _ t _

theorem nandBbtGet_set_of_ne {b' : Nat} (hne : b ≠ b') (c : RaNandChip) (t : BbtTag) :
    (c.nandBbtSet b t).nandBbtGet b' = c.nandBbtGet b' := by
  have hbits : ∀ n : Nat, n * 2 % 8 = 2 * (⟨n % 4, by omega⟩ : Fin 4).val := by
    intro n
    show n * 2 % 8 = 2 * (n % 4)
    omega
  unfold nandBbtSet nandBbtGet
  dsimp only
  by_cases hbyte : b' * 2 / 8 = b * 2 / 8
  · -- the two tags share a byte
    have hk : (⟨b % 4, by omega⟩ : Fin 4) ≠ ⟨b' % 4, by omega⟩ := by
      intro heq
      have hmod : b % 4 = b' % 4 := congrArg Fin.val heq
      omega
    rw [hbyte, update_self, hbits b, hbits b']
    exact tag_frame _ t _ _ hk
  · rw [update_of_ne hbyte]

/-! ## Accesses that program -/

/-- The table is the same, and bits of the flash have only been cleared. -/
structure Programs (c c' : RaNandChip) : Prop where
  mode_eq : c'.mode = c.mode
  ranfcBbt_eq : c'.ranfcBbt = c.ranfcBbt
  bbt_eq : c'.bbt = c.bbt
  answers_eq : c'.answers = c.answers
  cleared : ∀ page col, ∃ mask, c'.flash page col = c.flash page col &&& mask

theorem Programs.of_eq (hm : c'.mode = c.mode) (hr : c'.ranfcBbt = c.ranfcBbt)
    (hb : c'.bbt = c.bbt) (ha : c'.answers = c.answers) (hf : c'.flash = c.flash) : Programs c c' :=
  ⟨hm, hr, hb, ha, fun page col => ⟨BitVec.allOnes 8, by rw [hf, and_allOnes]⟩⟩

theorem Programs.refl (c : RaNandChip) : Programs c c := .of_eq rfl rfl rfl rfl rfl

theorem Programs.trans {c'' : RaNandChip} (h : Programs c c') (h' : Programs c' c'') :
    Programs c c'' := by
  refine ⟨h'.mode_eq.trans h.mode_eq, h'.ranfcBbt_eq.trans h.ranfcBbt_eq,
    h'.bbt_eq.trans h.bbt_eq, h'.answers_eq.trans h.answers_eq, fun page col => ?_⟩
  obtain ⟨mask, heq⟩ := h.cleared page col
  obtain ⟨mask', heq'⟩ := h'.cleared page col
  exact ⟨mask &&& mask', by rw [heq', heq, BitVec.and_assoc]⟩

theorem Programs.of_returns {α : Type*} {r : RaNandChip × α} {a : α} (h : Programs c r.1)
    (heq : r = (c', a)) : Programs c c' := by
  rw [heq] at h
  exact h

section

variable (c : RaNandChip)

theorem programs_accessed : Programs c c.accessed := .of_eq rfl rfl rfl rfl rfl

theorem programs_buffers (buf : Bytes) :
    Programs c { c with buffers := buf } := .of_eq rfl rfl rfl rfl rfl

theorem programs_program (mask : Nat → Bytes) : Programs c (c.program mask) :=
  ⟨rfl, rfl, rfl, rfl, fun page col => ⟨mask page col, rfl⟩⟩

theorem programs_nfcEnableChip (offs : Nat) (readOnly : Bool) :
    Programs c (c.nfcEnableChip offs readOnly).1 := by
  unfold nfcEnableChip
  split
  · exact .refl c
  · split
    · exact .refl c
    · exact programs_accessed c

theorem programs_nfcReadOob (page offs len : Nat) : Programs c (c.nfcReadOob page offs len).1 := by
  unfold nfcReadOob
  split
  · exact .refl c
  · split
    · exact programs_accessed c
    · exact programs_accessed c

theorem programs_nfcWriteOob (page offs : Nat) (buf : Bytes) (len : Nat) :
    Programs c (c.nfcWriteOob page offs buf len).1 := by
  unfold nfcWriteOob
  split
  · exact .refl c
  · split
    · exact (programs_program c _).trans (programs_accessed _)
    · exact (programs_program c _).trans (programs_accessed _)

theorem programs_pushPage (page : Nat) (buf : Bytes) (ecc : Bool) :
    Programs c (c.pushPage page buf ecc).1 :=
  (programs_program c _).trans (programs_accessed _)

theorem programs_verifyWritten (page : Nat) : Programs c (c.verifyWritten page).1 := by
  unfold verifyWritten pullPage
  split
  · next h =>
    obtain rfl := (Prod.mk.inj h).1
    exact programs_accessed c
  · next h =>
    obtain rfl := (Prod.mk.inj h).1
    split
    · next h' =>
      obtain rfl := (Prod.mk.inj h').1
      exact (programs_accessed c).trans (programs_accessed _)
    · next h' =>
      obtain rfl := (Prod.mk.inj h').1
      exact (programs_accessed c).trans (programs_accessed _)

theorem nfcReadPage_fst (page : Nat) (ecc : Bool) : (c.nfcReadPage page ecc).1 = { c.accessed with
      buffers := memcpy c.buffers 0 (c.pullPage page).2.2 (c.mode.pagesize + c.mode.oobsize) } := by
  unfold nfcReadPage
  rcases hpull : c.pullPage page with ⟨c₁, ok, data⟩
  obtain rfl : c.accessed = c₁ := congrArg Prod.fst hpull
  dsimp only
  split
  · rfl
  · split
    · rfl
    · rfl

theorem programs_nfcReadPage (page : Nat) (ecc : Bool) : Programs c (c.nfcReadPage page ecc).1 := by
  rw [nfcReadPage_fst]
  exact (programs_accessed c).trans (programs_buffers c.accessed _)

theorem programs_nfcWritePage (page : Nat) (verify ecc : Bool) :
    Programs c (c.nfcWritePage page verify ecc).1 := by
  unfold nfcWritePage
  dsimp only
  have hbuf := programs_buffers c (update c.buffers c.mode.badblockCol 0xff)
  have hpush := hbuf.trans (programs_pushPage
    { c with buffers := update c.buffers c.mode.badblockCol 0xff } page
    (update c.buffers c.mode.badblockCol 0xff) ecc)
  split
  · next c₁ heq => exact hpush.of_returns heq
  · next c₁ heq =>
    have h₁ : Programs c c₁ := hpush.of_returns heq
    split
    · have hver := h₁.trans (programs_verifyWritten c₁ page)
      split
      · next c₂ heq₂ => exact hver.of_returns heq₂
      · next c₂ heq₂ =>
        have h₂ : Programs c c₂ := hver.of_returns heq₂
        have hmark := h₂.trans (programs_buffers c₂
          (update c₂.buffers c₂.mode.badblockCol 0x33))
        split
        · exact hmark.trans (programs_pushPage _ page _ ecc)
        · have hoob := hmark.trans (programs_nfcWriteOob _
            (page - page % c₂.mode.pagesPerblock) c₂.mode.badblockpos (fun _ => 0x33) 1)
          split
          · next c₃ _ heq₃ => exact hoob.of_returns heq₃
          · next c₃ _ heq₃ => exact hoob.of_returns heq₃
    · exact h₁

theorem programs_preloadOob (page base len : Nat) (ops : MtdOobOps) :
    Programs c (c.preloadOob page base len ops).1 := by
  unfold preloadOob
  have hread := programs_nfcReadOob c page 0 len
  split
  · split
    · next c₁ _ heq => exact hread.of_returns heq
    · next c₁ _ bytes heq =>
      have h₁ : Programs c c₁ := hread.of_returns heq
      exact h₁.trans (programs_buffers c₁ _)
  · exact .refl c

theorem programs_readTwice (page : Nat) (ecc : Bool) : Programs c (c.readTwice page ecc).1 := by
  unfold readTwice
  have hread := programs_nfcReadPage c page ecc
  split
  · next c₁ heq => exact hread.of_returns heq
  · next c₁ _ heq =>
    have h₁ : Programs c c₁ := hread.of_returns heq
    exact h₁.trans (programs_nfcReadPage c₁ page ecc)

end

variable {ops : MtdOobOps} {left : Left}

theorem programs_fillOob {n : Nat} (h : c.fillOob ops left = some (c', n)) : Programs c c' := by
  unfold fillOob at h
  split at h
  · split at h
    · obtain rfl := (Prod.mk.inj (some.inj h)).1
      exact .refl c
    · obtain ⟨r, _, heq⟩ := map_eq_some_iff.mp h
      obtain rfl := (Prod.mk.inj heq).1
      exact programs_buffers c r.1
  · obtain rfl := (Prod.mk.inj (some.inj h)).1
    exact .refl c

theorem programs_fillData (c : RaNandChip) (addr : Nat) (ops : MtdOobOps) (left : Left) (n : Nat) :
    Programs c (c.fillData addr ops left n) := by
  unfold fillData
  split
  · exact programs_buffers c _
  · exact .refl c

theorem programs_writeOobBurst (c : RaNandChip) (start : Nat) (ops : MtdOobOps) :
    Programs c (c.writeOobBurst start ops).1 := by
  unfold writeOobBurst
  dsimp only
  have hena := programs_nfcEnableChip c start false
  split
  · next c₁ heq => exact hena.of_returns heq
  · next c₁ heq =>
    have h₁ : Programs c c₁ := hena.of_returns heq
    have hpre := (h₁.trans (programs_buffers c₁
      (memcpy c₁.buffers 0 (fun _ => 0xff) c₁.mode.pagesize))).trans
        (programs_preloadOob _ (c₁.mode.pageOf start) 0 (c₁.oobBurstLen ops) ops)
    split
    · next c₂ _ heq₂ => exact hpre.of_returns heq₂
    · next c₂ heq₂ =>
      have h₂ : Programs c c₂ := hpre.of_returns heq₂
      split
      · exact h₂
      · next oob _ =>
        have hwrite := fun buf => (h₂.trans (programs_buffers c₂ buf)).trans
          (programs_nfcWriteOob _ (c₁.mode.pageOf start) 0 buf (c₁.oobBurstLen ops))
        split
        · next c₃ _ heq₃ => exact (hwrite _).of_returns heq₃
        · next c₃ _ heq₃ => exact (hwrite _).of_returns heq₃

/-! ## Marked blocks -/

/-- The block is bad in the table, or it is unknown there and every page of it carries a mark
    on flash. -/
structure Marked (c : RaNandChip) (b : Nat) : Prop where
  checks : c.ranfcBbt = true
  inChip : b < c.mode.chipsize / 2 ^ c.mode.eraseShift
  tagged : c.nandBbtGet b = .bad ∨ c.nandBbtGet b = .unknown ∧
    ∀ page, page / c.mode.pagesPerblock = b → c.flash page c.mode.badblockCol ≠ 0xff

theorem and_ne_allOnes {x mask : BitVec 8} (h : x ≠ 0xff) : x &&& mask ≠ 0xff := by
  intro heq
  apply h
  have hones : x &&& mask = BitVec.allOnes 8 := heq
  exact (and_eq_allOnes_iff.mp hones).1

theorem Marked.of_programs (h : Marked c b) (hp : Programs c c') : Marked c' b := by
  have hget : c'.nandBbtGet b = c.nandBbtGet b := by rw [nandBbtGet, nandBbtGet, hp.bbt_eq]
  refine ⟨hp.ranfcBbt_eq.trans h.checks, hp.mode_eq ▸ h.inChip, ?_⟩
  rw [hget, hp.mode_eq]
  refine h.tagged.imp_right fun ⟨hunknown, hflash⟩ => ⟨hunknown, fun page hpage => ?_⟩
  obtain ⟨mask, heq⟩ := hp.cleared page c.mode.badblockCol
  rw [heq]
  exact and_ne_allOnes (hflash page hpage)

theorem Marked.set_of_ne (h : Marked c b) {b' : Nat} (hne : b' ≠ b) (t : BbtTag) :
    Marked (c.nandBbtSet b' t) b := by
  refine ⟨h.checks, h.inChip, ?_⟩
  rw [nandBbtGet_set_of_ne hne]
  exact h.tagged

theorem Marked.set_bad (h : Marked c b) (b' : Nat) : Marked (c.nandBbtSet b' .bad) b := by
  by_cases hb : b' = b
  · subst hb
    exact ⟨h.checks, h.inChip, .inl (nandBbtGet_set_self c b' .bad)⟩
  · exact h.set_of_ne hb .bad

theorem badblockpos_lt (m : ChipMode) : m.badblockpos + 1 < m.oobsize := by
  cases m <;> decide

theorem oobByte_badblockpos (c : RaNandChip) (page : Nat) :
    c.oobByte page (c.mode.badblockpos + 0) = c.flash page c.mode.badblockCol := by
  have hpos : c.mode.badblockpos < c.mode.oobsize := lt_of_succ_lt (badblockpos_lt c.mode)
  simp [oobByte, ChipMode.badblockCol, div_eq_of_lt hpos, mod_eq_of_lt hpos]

theorem scanTag_of_mark {page : Nat} (h : c.flash page c.mode.badblockCol ≠ 0xff) :
    (c.scanTag page).2 = .bad := by
  have hbyte := oobByte_badblockpos c page
  unfold scanTag nfcReadOob
  split
  · next c₁ byte heq =>
    split at heq
    · cases heq
    · split at heq
      · cases heq
      · obtain ⟨_, hok⟩ := Prod.mk.inj heq
        have hfun : (fun i => c.oobByte page (c.mode.badblockpos + i)) = byte :=
          (Prod.mk.inj (Except.ok.inj hok)).2
        have hne : byte 0 ≠ 0xff := by
          rw [← hfun]
          show c.oobByte page (c.mode.badblockpos + 0) ≠ 0xff
          rw [hbyte]
          exact h
        rw [if_neg hne]
  · rfl

theorem programs_scanTag (c : RaNandChip) (page : Nat) : Programs c (c.scanTag page).1 := by
  unfold scanTag
  have hread := programs_nfcReadOob c page c.mode.badblockpos 1
  split
  · next c₁ _ heq => exact hread.of_returns heq
  · next c₁ _ _ heq => exact hread.of_returns heq

/-- **The verdict** on a marked block. -/
theorem Marked.checkbad_self (h : Marked c b) {offs : Nat} (hoffs : c.mode.blockOf offs = b) :
    (c.nandBlockCheckbad offs).2 = true := by
  unfold nandBlockCheckbad
  rw [if_neg (by simp [h.checks])]
  dsimp only
  rw [hoffs]
  rcases h.tagged with hbad | ⟨hunknown, hflash⟩
  · rw [hbad]
    rfl
  · rw [hunknown]
    have hpage : c.mode.pageOf offs / c.mode.pagesPerblock = b := by rw [ChipMode.pageOf_div, hoffs]
    have hscan := scanTag_of_mark (hflash _ hpage)
    rcases hs : c.scanTag (c.mode.pageOf offs) with ⟨c₁, tag⟩
    rw [hs] at hscan
    simp only at hscan ⊢
    rw [hscan]
    rfl

theorem Marked.checkbad (h : Marked c b) (offs : Nat) : Marked (c.nandBlockCheckbad offs).1 b := by
  have hself : c.mode.blockOf offs = b → (c.nandBlockCheckbad offs).2 = true := h.checkbad_self
  unfold nandBlockCheckbad at hself ⊢
  rw [if_neg (by simp [h.checks])] at hself ⊢
  dsimp only at hself ⊢
  split
  · next htag =>
    rw [htag] at hself
    rcases hs : c.scanTag (c.mode.pageOf offs) with ⟨c₁, tag⟩
    rw [hs] at hself
    have hscan : Marked c₁ b := h.of_programs ((programs_scanTag c _).of_returns hs)
    by_cases hb : c.mode.blockOf offs = b
    · -- the verdict on the block itself was bad, and there is no other one but good
      have hne : tag ≠ .good := by simpa using hself hb
      have hbad : tag = .bad := by
        have htwo : (c.scanTag (c.mode.pageOf offs)).2 = .good ∨
            (c.scanTag (c.mode.pageOf offs)).2 = .bad := by
          unfold scanTag
          split
          · split
            · exact .inl rfl
            · exact .inr rfl
          · exact .inr rfl
        rw [hs] at htwo
        exact htwo.resolve_left hne
      rw [hbad]
      exact hscan.set_bad _
    · exact hscan.set_of_ne hb tag
  · exact h

/-! ## Erasing -/

theorem Marked.nfcEraseBlock (h : Marked c b) {page : Nat}
    (hne : page / c.mode.pagesPerblock ≠ b) : Marked (c.nfcEraseBlock page).1 b := by
  refine ⟨h.checks, h.inChip, h.tagged.imp_right fun ⟨hunknown, hflash⟩ => ⟨hunknown, ?_⟩⟩
  intro p hp
  have hother : p / c.mode.pagesPerblock ≠ page / c.mode.pagesPerblock := fun heq =>
    hne (heq.symm.trans hp)
  have hkept : (c.nfcEraseBlock page).1.flash p c.mode.badblockCol =
      c.flash p c.mode.badblockCol := if_neg hother
  exact hkept ▸ hflash p hp

variable {addr : Nat}

theorem enabled_lt {readOnly : Bool}
    (hena : (c.nfcEnableChip addr readOnly).2 = true) : addr % 2 ^ 32 < c.mode.chipsize := by
  unfold nfcEnableChip at hena
  split at hena
  · cases hena
  · next hlt => exact not_le.mp hlt

theorem chipsize_le (m : ChipMode) : m.chipsize ≤ 2 ^ 30 := by
  unfold ChipMode.chipsize
  exact Nat.pow_le_pow_right (by decide) (by cases m <;> decide)

theorem Marked.block_ne_of_enabled {readOnly : Bool} (h : Marked c b)
    (hena : (c.nfcEnableChip addr readOnly).2 = true) (hne : c.mode.blockOf addr ≠ b) :
    addr / 2 ^ c.mode.eraseShift ≠ b := by
  have hlt := enabled_lt hena
  have hchip := chipsize_le c.mode
  by_cases hsmall : addr < 2 ^ 32
  · rw [mod_eq_of_lt hsmall] at hlt
    rwa [ChipMode.blockOf, mod_eq_of_lt hlt] at hne
  · have hle : c.mode.chipsize / 2 ^ c.mode.eraseShift ≤ addr / 2 ^ c.mode.eraseShift :=
      Nat.div_le_div_right (by omega)
    exact (h.inChip.trans_le hle).ne'

theorem nandBlockCheckbad_mode (c : RaNandChip) (offs : Nat) :
    (c.nandBlockCheckbad offs).1.mode = c.mode := by
  unfold nandBlockCheckbad
  split
  · rfl
  · dsimp only
    split
    · exact (programs_scanTag c _).mode_eq
    · rfl

/-- **Erasing** does not touch a marked block: the loop stops there. -/
theorem Marked.eraseBlocks (n : Nat) (h : Marked c b) (haddr : addr < 2 ^ 32) :
    Marked (RaNandChip.eraseBlocks n c addr).1 b := by
  induction n generalizing c addr with
  | zero => exact h
  | succ n ih =>
    unfold RaNandChip.eraseBlocks
    dsimp only
    split
    · next c₁ heq =>
      exact (h.of_programs ((programs_nfcEnableChip c addr false).of_returns heq)).set_bad _
    · next c₁ heq =>
      have hp₁ := (programs_nfcEnableChip c addr false).of_returns heq
      have h₁ : Marked c₁ b := h.of_programs hp₁
      have hcheck := h₁.checkbad addr
      have hmode := nandBlockCheckbad_mode c₁ addr
      split
      · next c₂ heq₂ =>
        rw [heq₂] at hcheck
        exact hcheck.set_bad _
      · next c₂ heq₂ =>
        have hother : c₁.mode.blockOf addr ≠ b := by
          intro hb
          have hbad := h₁.checkbad_self hb
          rw [heq₂] at hbad
          cases hbad
        rw [heq₂] at hcheck hmode
        have hmode₂ : c₂.mode = c.mode := hmode.trans hp₁.mode_eq
        have hena : (c.nfcEnableChip addr false).2 = true := by rw [heq]
        have hpage : addr / c₂.mode.pagesize / c₂.mode.pagesPerblock ≠ b := by
          rw [hmode₂, ChipMode.pagesize, ChipMode.pagesPerblock, Nat.div_div_eq_div_mul, ← pow_add]
          exact h.block_ne_of_enabled hena (hp₁.mode_eq ▸ hother)
        have herase := hcheck.nfcEraseBlock hpage
        split
        · next c₃ heq₃ =>
          rw [heq₃] at herase
          exact herase.set_bad _
        · next c₃ heq₃ =>
          rw [heq₃] at herase
          have hlt := enabled_lt hena
          have hchip := chipsize_le c.mode
          have hblock : 2 ^ c₃.mode.eraseShift ≤ 2 ^ 17 :=
            Nat.pow_le_pow_right (by decide) (by cases c₃.mode <;> decide)
          exact ih herase (by omega)

/-! ## Reading and writing -/

/-- The number of OOB bytes of a round of `nand_do_read_ops`. -/
def oobReadLen (m : ChipMode) (ops : MtdOobOps) (ooblen : Nat) : Option Nat :=
  if ops.oobbuf.isSome && ooblen != 0 then
    (nandReadOobBuf m (fun _ => 0) ooblen ops.mode ops.ooboffs).map List.length
  else some 0

/-- The number of OOB bytes of a round of `nand_do_write_ops`. -/
def oobWriteLen (m : ChipMode) (ops : MtdOobOps) (ooblen : Nat) : Option Nat :=
  if ops.oobbuf.isSome && ooblen != 0 then
    (nandWriteOobBuf m (fun _ => 0) 0 (fun _ => 0) ooblen ops.mode ops.ooboffs).map Prod.snd
  else some 0

/-- The pages to which the loops of `nand_do_read_ops` and `nand_do_write_ops` come, if the
    hardware does not fail. -/
def loopPages (m : ChipMode) (ops : MtdOobOps) (oobLen : Nat → Option Nat) :
    Nat → Nat → Nat → Nat → List Nat
  | rest, addr, datalen, ooblen =>
    if datalen = 0 ∧ ooblen = 0 then []
    else
      match oobLen ooblen with
      | none => []
      | some k =>
        m.pageOf addr :: match rest with
          | 0 => []
          | rest + 1 => loopPages m ops oobLen rest ((m.pageOf addr + 1) * m.pagesize)
              (datalen - dataLen m ops addr datalen) (ooblen - k)

theorem readFree_length (buf buf' : Bytes) (base : Nat) (free : List (Nat × Nat))
    (woffs size : Nat) :
    (readFree buf base free woffs size).length = (readFree buf' base free woffs size).length := by
  induction free generalizing woffs size with
  | nil => rfl
  | cons f free ih =>
    obtain ⟨offset, length⟩ := f
    simp only [readFree]
    split
    · rfl
    · split
      · exact ih _ _
      · simp only [length_append, length_map, ih]

theorem nandReadOobBuf_length (m : ChipMode) (buf : Bytes) (size : Nat) (mode : MtdOobMode)
    (ooboffs : Nat) : (nandReadOobBuf m buf size mode ooboffs).map List.length =
      (nandReadOobBuf m (fun _ => 0) size mode ooboffs).map List.length := by
  have hlen := readFree_length buf (fun _ => 0) m.pagesize oobfree ooboffs
    (min size (oobavail - ooboffs))
  cases mode with
  | place =>
    dsimp only [nandReadOobBuf]
    split <;> simp
  | raw =>
    dsimp only [nandReadOobBuf]
    split <;> simp
  | auto =>
    dsimp only [nandReadOobBuf]
    split
    · rfl
    · exact congrArg some hlen

theorem nandWriteOobBuf_size (m : ChipMode) (buf : Bytes) (base : Nat) (oob : Bytes) (size : Nat)
    (mode : MtdOobMode) (ooboffs : Nat) :
    (nandWriteOobBuf m buf base oob size mode ooboffs).map Prod.snd =
      (nandWriteOobBuf m (fun _ => 0) 0 (fun _ => 0) size mode ooboffs).map Prod.snd := by
  cases mode <;>
  · dsimp only [nandWriteOobBuf]
    split <;> rfl

theorem fillOob_size {n : Nat}
    (h : c.fillOob ops left = some (c', n)) : oobWriteLen c.mode ops left.ooblen = some n := by
  unfold fillOob at h
  unfold oobWriteLen
  split at h
  · next oob hoob =>
    split at h
    · next hzero =>
      rw [if_neg (by simp [hzero]), ← (Prod.mk.inj (some.inj h)).2]
    · next hpos =>
      obtain ⟨r, hr, heq⟩ := map_eq_some_iff.mp h
      have hsize := nandWriteOobBuf_size c.mode c.buffers c.mode.pagesize
        (fun i => oob (left.oobretlen + i)) left.ooblen ops.mode ops.ooboffs
      rw [if_pos (by simp [hoob, hpos]), ← hsize, hr]
      exact congrArg some (Prod.mk.inj heq).2
  · next hoob =>
    rw [if_neg (by simp [hoob]), ← (Prod.mk.inj (some.inj h)).2]

/-- What a round may do: the block stays marked, and if the loop goes on, the round has taken
    the bytes that `loopPages` counts. -/
structure RoundKeeps (b : Nat) (ops : MtdOobOps) (oobLen : ChipMode → Nat → Option Nat)
    (c : RaNandChip) (addr : Nat) (left : Left)
    (r : RaNandChip × Left × Option (Except NandError Unit)) : Prop where
  marked : Marked r.1 b
  mode_eq : r.1.mode = c.mode
  next : r.2.2 = none → ∃ k, oobLen c.mode left.ooblen = some k ∧
    r.2.1.datalen = left.datalen - dataLen c.mode ops addr left.datalen ∧
    r.2.1.ooblen = left.ooblen - k

theorem RoundKeeps.stop {oobLen : ChipMode → Nat → Option Nat}
    {left left' : Left} {ret : Except NandError Unit} (hm : Marked c' b) (hmode : c'.mode = c.mode) :
    RoundKeeps b ops oobLen c addr left (c', left', some ret) :=
  ⟨hm, hmode, fun h => by cases h⟩

theorem blockOf_ne_of_loopPages {m : ChipMode} {oobLen : Nat → Option Nat}
    {rest addr datalen ooblen : Nat} (hleft : ¬ (datalen = 0 ∧ ooblen = 0))
    (hsome : oobLen ooblen ≠ none)
    (hpages : ∀ p ∈ loopPages m ops oobLen rest addr datalen ooblen, p / m.pagesPerblock ≠ b) :
    m.blockOf addr ≠ b := by
  obtain ⟨k, hk⟩ := ne_none_iff_exists'.mp hsome
  unfold loopPages at hpages
  rw [if_neg hleft, hk] at hpages
  exact ChipMode.pageOf_div m addr ▸ hpages _ mem_cons_self

/-- **Loop rule**: what every round keeps, with the number of pages behind the one it is at, gives
    what is asked for at the end. -/
theorem pageLoop_rule {round : RaNandChip → Nat → Left →
      RaNandChip × Left × Option (Except NandError Unit)}
    (Inv : Nat → RaNandChip → Nat → Left → Prop)
    (Post : RaNandChip × Except NandError Unit × Left → Prop)
    (hdone : ∀ rest c addr left, Inv rest c addr left → left.datalen = 0 ∧ left.ooblen = 0 →
      Post (c, .ok (), left)) (hstop : ∀ rest c addr left c' left' ret, Inv rest c addr left →
      ¬ (left.datalen = 0 ∧ left.ooblen = 0) → round c addr left = (c', left', some ret) →
      Post (c', ret, left')) (hnext : ∀ rest c addr left c' left', Inv (rest + 1) c addr left →
      ¬ (left.datalen = 0 ∧ left.ooblen = 0) → round c addr left = (c', left', none) →
      Inv rest c' ((c'.mode.pageOf addr + 1) * c'.mode.pagesize) left')
    (hlast : ∀ c addr left c' left', Inv 0 c addr left →
      ¬ (left.datalen = 0 ∧ left.ooblen = 0) → round c addr left = (c', left', none) →
      Post (c', if left'.datalen = 0 ∧ left'.ooblen = 0 then .ok () else .error .eio, left'))
    (rest : Nat) (c : RaNandChip) (addr : Nat) (left : Left) (h : Inv rest c addr left) :
    Post (pageLoop round rest c addr left) := by
  induction rest generalizing c addr left with
  | zero =>
    unfold pageLoop
    split
    · next hleft => exact hdone _ _ _ _ h hleft
    · next hleft =>
      split
      · next c' left' ret heq => exact hstop _ _ _ _ _ _ _ h hleft heq
      · next c' left' heq =>
        have hpost := hlast _ _ _ _ _ h hleft heq
        dsimp only
        split
        · next hdone' => rwa [if_pos hdone'] at hpost
        · next hdone' => rwa [if_neg hdone'] at hpost
  | succ rest ih =>
    unfold pageLoop
    split
    · next hleft => exact hdone _ _ _ _ h hleft
    · next hleft =>
      split
      · next c' left' ret heq => exact hstop _ _ _ _ _ _ _ h hleft heq
      · next c' left' heq => exact ih _ _ _ (hnext _ _ _ _ _ _ h hleft heq)

/-- **The loop over the pages**, as long as it comes to no page of the block. -/
theorem Marked.pageLoop {oobLen : ChipMode → Nat → Option Nat}
    {round : RaNandChip → Nat → Left → RaNandChip × Left × Option (Except NandError Unit)}
    (hround : ∀ (c : RaNandChip) addr left, Marked c b →
      (oobLen c.mode left.ooblen ≠ none → c.mode.blockOf addr ≠ b) →
      RoundKeeps b ops oobLen c addr left (round c addr left))
    (rest : Nat) (h : Marked c b) (addr : Nat) (left : Left)
    (hpages : ∀ p ∈ loopPages c.mode ops (oobLen c.mode) rest addr left.datalen left.ooblen,
      p / c.mode.pagesPerblock ≠ b) : Marked (RaNandChip.pageLoop round rest c addr left).1 b := by
  have hkeeps : ∀ {rest : Nat} {c : RaNandChip} {addr : Nat} {left : Left}, Marked c b →
      (∀ p ∈ loopPages c.mode ops (oobLen c.mode) rest addr left.datalen left.ooblen,
        p / c.mode.pagesPerblock ≠ b) →
      ¬ (left.datalen = 0 ∧ left.ooblen = 0) →
      RoundKeeps b ops oobLen c addr left (round c addr left) :=
    fun h hpages hleft => hround _ _ _ h fun hsome => blockOf_ne_of_loopPages hleft hsome hpages
  apply pageLoop_rule
    (fun rest c addr left => Marked c b ∧
      ∀ p ∈ loopPages c.mode ops (oobLen c.mode) rest addr left.datalen left.ooblen,
        p / c.mode.pagesPerblock ≠ b)
    (fun r => Marked r.1 b)
  · intro rest c addr left hinv _
    exact hinv.1
  · intro rest c addr left c' left' ret hinv hleft heq
    have hround' := hkeeps hinv.1 hinv.2 hleft
    rw [heq] at hround'
    exact hround'.marked
  · intro rest c addr left c' left' hinv hleft heq
    have hround' := hkeeps hinv.1 hinv.2 hleft
    rw [heq] at hround'
    obtain ⟨k, hk, hdata, hoob⟩ := hround'.next rfl
    have hmode : c'.mode = c.mode := hround'.mode_eq
    refine ⟨hround'.marked, ?_⟩
    have hpages' := hinv.2
    unfold loopPages at hpages'
    rw [if_neg hleft, hk] at hpages'
    rw [hmode, hdata, hoob]
    exact fun p hp => hpages' p (mem_cons_of_mem _ hp)
  · intro c addr left c' left' hinv hleft heq
    have hround' := hkeeps hinv.1 hinv.2 hleft
    rw [heq] at hround'
    exact hround'.marked
  · exact ⟨h, hpages⟩

theorem Marked.readRound (ops : MtdOobOps) (h : Marked c b)
    (hne : oobReadLen c.mode ops left.ooblen ≠ none → c.mode.blockOf addr ≠ b) :
    RoundKeeps b ops (oobReadLen · ops) c addr left (RaNandChip.readRound ops c addr left) := by
  unfold RaNandChip.readRound
  have hena := programs_nfcEnableChip c addr true
  split
  · next c₁ heq =>
    have hp₁ := hena.of_returns heq
    exact .stop (h.of_programs hp₁) hp₁.mode_eq
  · next c₁ heq =>
    have hp₁ := hena.of_returns heq
    have henabled : (c.nfcEnableChip addr true).2 = true := by rw [heq]
    rcases hread : c₁.readTwice (c₁.mode.pageOf addr) (decide (ops.mode = .auto)) with ⟨c₂, ret⟩
    have hp₂ : Programs c c₂ := hp₁.trans ((programs_readTwice c₁ _ _).of_returns hread)
    have h₂ : Marked c₂ b := h.of_programs hp₂
    dsimp only
    rw [hp₁.mode_eq]
    -- an error tags the block as bad
    have h₃ : Marked (if ret = .ok () then c₂ else
        c₂.nandBbtSet (addr / 2 ^ c.mode.eraseShift) .bad) b := by
      split
      · exact h₂
      · exact h₂.set_bad _
    have hmode₃ : (if ret = .ok () then c₂ else
        c₂.nandBbtSet (addr / 2 ^ c.mode.eraseShift) .bad).mode = c.mode := by
      split
      · exact hp₂.mode_eq
      · exact hp₂.mode_eq
    generalize (if ret = .ok () then c₂ else
      c₂.nandBbtSet (addr / 2 ^ c.mode.eraseShift) .bad) = c₃ at h₃ hmode₃ ⊢
    split
    · exact .stop h₃ hmode₃
    · split
      · exact .stop h₃ hmode₃
      · next bytes hbytes =>
        have hlen : oobReadLen c.mode ops left.ooblen = some bytes.length := by
          unfold oobReadLen
          split
          · next hcond =>
            rw [if_pos hcond] at hbytes
            rw [← nandReadOobBuf_length c.mode c₃.buffers, ← hmode₃, hbytes]
            rfl
          · next hcond =>
            rw [if_neg hcond] at hbytes
            rw [← some.inj hbytes]
            rfl
        split
        · exact .stop h₃ hmode₃
        · have hblock := h.block_ne_of_enabled henabled (hne (by simp [hlen]))
          refine ⟨h₃.set_of_ne hblock .good, hmode₃, fun _ => ⟨_, hlen, ?_, rfl⟩⟩
          rw [← hmode₃]
          rfl

theorem Marked.writeRound (ops : MtdOobOps) (h : Marked c b)
    (hne : oobWriteLen c.mode ops left.ooblen ≠ none → c.mode.blockOf addr ≠ b) :
    RoundKeeps b ops (oobWriteLen · ops) c addr left (RaNandChip.writeRound ops c addr left) := by
  unfold RaNandChip.writeRound
  have hena := programs_nfcEnableChip c addr false
  split
  · next c₁ heq =>
    have hp₁ := hena.of_returns heq
    exact .stop (h.of_programs hp₁) hp₁.mode_eq
  · next c₁ heq =>
    have hp₁ := hena.of_returns heq
    have henabled : (c.nfcEnableChip addr false).2 = true := by rw [heq]
    have hpre := hp₁.trans (programs_preloadOob c₁ (c₁.mode.pageOf addr) c₁.mode.pagesize
      c₁.mode.oobsize ops)
    dsimp only
    split
    · next c₂ e heq₂ =>
      have hp₂ := hpre.of_returns heq₂
      exact .stop (h.of_programs hp₂) hp₂.mode_eq
    · next c₂ heq₂ =>
      have hp₂ := hpre.of_returns heq₂
      split
      · exact .stop (h.of_programs hp₂) hp₂.mode_eq
      · next c₃ k heq₃ =>
        have hp₃ := hp₂.trans (programs_fillOob heq₃)
        have hlen : oobWriteLen c.mode ops left.ooblen = some k := hp₂.mode_eq ▸ fillOob_size heq₃
        have hblock := h.block_ne_of_enabled henabled (hne (by simp [hlen]))
        rw [← hp₁.mode_eq] at hblock
        have hwrite := (hp₃.trans (programs_fillData c₃ addr ops left
          (dataLen c₃.mode ops addr left.datalen))).trans (programs_nfcWritePage _
            (c₁.mode.pageOf addr) true
            (decide (ops.mode = .auto) && decide (dataLen c₃.mode ops addr left.datalen ≠ 0)))
        split
        · next c₄ e heq₄ =>
          have hp₄ := hwrite.of_returns heq₄
          exact .stop ((h.of_programs hp₄).set_bad _) hp₄.mode_eq
        · next c₄ heq₄ =>
          have hp₄ := hwrite.of_returns heq₄
          refine ⟨(h.of_programs hp₄).set_of_ne hblock .good, hp₄.mode_eq,
            fun _ => ⟨k, hlen, ?_, rfl⟩⟩
          rw [← hp₃.mode_eq]
          rfl

/-! ## Marking -/

theorem marked_of_set_bad (hchecks : c.ranfcBbt = true)
    (hlt : b < c.mode.chipsize / 2 ^ c.mode.eraseShift) : Marked (c.nandBbtSet b .bad) b :=
  ⟨hchecks, hlt, .inl (nandBbtGet_set_self c b .bad)⟩

theorem nandBlockMarkbad_cases (c : RaNandChip) (offs : Nat) :
    c.nandBbtGet (c.mode.blockOf offs) = .bad ∧ c.nandBlockMarkbad offs = c ∨
      ∃ c₁, Programs c c₁ ∧ c.nandBlockMarkbad offs = c₁.nandBbtSet (c.mode.blockOf offs) .bad := by
  unfold nandBlockMarkbad
  dsimp only
  have hread := programs_nfcReadPage c (c.mode.pageOf offs) false
  split
  · next hbad => exact .inl ⟨hbad, rfl⟩
  · right
    split
    · next c₁ _ heq => exact ⟨c₁, hread.of_returns heq, rfl⟩
    · next c₁ _ heq =>
      have hp₁ := hread.of_returns heq
      split
      · exact ⟨_, (hp₁.trans (programs_buffers c₁ _)).trans (programs_nfcWritePage _ _ _ _), rfl⟩
      · exact ⟨c₁, hp₁, rfl⟩

theorem blockOf_lt (m : ChipMode) (offs : Nat) :
    m.blockOf offs < m.chipsize / 2 ^ m.eraseShift := by
  have hdvd : 2 ^ m.eraseShift ∣ m.chipsize := Nat.pow_dvd_pow 2 (by cases m <;> decide)
  exact div_lt_div_of_lt_of_dvd hdvd (mod_lt _ (Nat.two_pow_pos _))

/-- **Marking** a block. -/
theorem marked_nandBlockMarkbad (hchecks : c.ranfcBbt = true) (offs : Nat) :
    Marked (c.nandBlockMarkbad offs) (c.mode.blockOf offs) := by
  have hlt := blockOf_lt c.mode offs
  rcases nandBlockMarkbad_cases c offs with ⟨hbad, heq⟩ | ⟨c₁, hp, heq⟩
  · rw [heq]
    exact ⟨hchecks, hlt, .inl hbad⟩
  · rw [heq]
    exact marked_of_set_bad (hp.ranfcBbt_eq.trans hchecks) (hp.mode_eq ▸ hlt)

theorem Marked.nandBlockMarkbad (h : Marked c b) (offs : Nat) :
    Marked (c.nandBlockMarkbad offs) b := by
  rcases nandBlockMarkbad_cases c offs with ⟨_, heq⟩ | ⟨c₁, hp, heq⟩
  · rw [heq]
    exact h
  · rw [heq]
    exact (h.of_programs hp).set_bad _

/-! ## Runs -/

/-- The loop of the operation comes to no page of block `b`. -/
def LoopSpares (b : Nat) (c : RaNandChip) (ops : MtdOobOps) (oobLen : Nat → Option Nat)
    (start : Nat) : Prop :=
  ∀ p ∈ loopPages c.mode ops oobLen (c.mode.numpage - c.mode.pageOf start - 1) start
    ops.start.datalen ops.start.ooblen, p / c.mode.pagesPerblock ≠ b

/-- The call reads and writes no page of block `b`; a restart finds a mark on every page of
    the block. -/
def Spares (b : Nat) (c : RaNandChip) : NandCall → Prop
  | .read start len => start + len ≤ c.mode.chipsize →
      LoopSpares b c (plainOps len fun _ => 0) (oobReadLen c.mode (plainOps len fun _ => 0)) start
  | .write start len buf => start + len ≤ c.mode.chipsize →
      LoopSpares b c (plainOps len buf) (oobWriteLen c.mode (plainOps len buf)) start
  | .readoob start ops => LoopSpares b c ops (oobReadLen c.mode ops) start
  | .writeoob start ops => ops.start.datalen ≠ 0 →
      LoopSpares b c ops (oobWriteLen c.mode ops) start
  | .restart => ∀ i < c.mode.pagesPerblock,
      c.flash (b * c.mode.pagesPerblock + i) c.mode.badblockCol ≠ 0xff
  | _ => True

theorem Marked.nandDoReadOps (h : Marked c b) {start : Nat}
    (hspares : LoopSpares b c ops (oobReadLen c.mode ops) start) :
    Marked (c.nandDoReadOps start ops).1 b :=
  h.pageLoop (fun _ _ _ hm hne => hm.readRound ops hne) _ start ops.start hspares

theorem Marked.nandDoWriteOps (h : Marked c b) {start : Nat}
    (hspares : ops.start.datalen ≠ 0 → LoopSpares b c ops (oobWriteLen c.mode ops) start) :
    Marked (c.nandDoWriteOps start ops).1 b := by
  unfold RaNandChip.nandDoWriteOps
  dsimp only
  split
  · exact h.of_programs (programs_writeOobBurst c start ops)
  · next hburst =>
    by_cases hdata : ops.start.datalen = 0
    · -- nothing to do at all
      have hoob : ops.start.ooblen = 0 := by
        by_contra hne
        exact hburst ⟨hdata, hne⟩
      unfold RaNandChip.pageLoop
      rw [if_pos ⟨hdata, hoob⟩]
      exact h
    · exact h.pageLoop (fun _ _ _ hm hne => hm.writeRound ops hne) _ start ops.start
        (hspares hdata)

theorem nandBbtGet_raNandInit (c : RaNandChip) (b : Nat) :
    c.raNandInit.nandBbtGet b = .unknown := by
  simp [nandBbtGet, raNandInit, BbtTag.ofBits]

/-- **Call lemma**: a marked block stays marked. -/
theorem Marked.step (h : Marked c b) {e : NandCall} (hspares : Spares b c e) :
    Marked (c.step e) b := by
  cases e with
  | read start len =>
    simp only [RaNandChip.step, ramtdNandRead]
    split
    · exact h
    · next hle =>
      split
      · exact h
      · exact h.nandDoReadOps (hspares (not_lt.mp hle))
  | write start len buf =>
    simp only [RaNandChip.step, ramtdNandWrite]
    split
    · exact h
    · next hle =>
      split
      · exact h
      · exact h.nandDoWriteOps fun _ => hspares (not_lt.mp hle)
  | erase addr len =>
    simp only [RaNandChip.step, nandEraseNand]
    split
    · exact h
    · exact h.eraseBlocks _ addr.isLt
  | readoob start ops => exact h.nandDoReadOps hspares
  | writeoob start ops => exact h.nandDoWriteOps hspares
  | blockIsbad offs =>
    simp only [RaNandChip.step, ramtdNandBlockIsbad]
    split
    · exact h
    · exact h.checkbad offs
  | blockMarkbad offs => exact h.nandBlockMarkbad offs
  | restart =>
    refine ⟨h.checks, h.inChip, .inr ⟨?_, fun page hpage => ?_⟩⟩
    · exact nandBbtGet_raNandInit c b
    · change page / c.mode.pagesPerblock = b at hpage
      have hmod := div_add_mod' page c.mode.pagesPerblock
      have hlt := mod_lt page c.mode.pagesPerblock_pos
      have hmark := hspares (page % c.mode.pagesPerblock) hlt
      rw [← hpage, hmod] at hmark
      exact hmark

def ReportsBad (c : RaNandChip) (b : Nat) : Prop :=
  ∀ offs ≤ c.mode.chipsize, c.mode.blockOf offs = b → (c.ramtdNandBlockIsbad offs).2 = .ok true

theorem Marked.reportsBad (h : Marked c b) : ReportsBad c b := by
  intro offs hle hoffs
  have hverdict := h.checkbad_self hoffs
  unfold ramtdNandBlockIsbad
  rw [if_neg (not_lt.mpr hle)]
  exact congrArg Except.ok hverdict

end RaNandChip

/-- **A marked block stays bad** in every run that reads and writes none of its pages and that
    restarts only when each of them carries a mark on flash. -/
theorem marked_block_stays_bad (c : RaNandChip) (hchecks : c.ranfcBbt = true) (offs : Nat)
    (es : List NandCall) (hrun : Along RaNandChip.step (RaNandChip.Spares (c.mode.blockOf offs))
      (c.nandBlockMarkbad offs) es) :
    (runEvents RaNandChip.step (c.nandBlockMarkbad offs) es).ReportsBad (c.mode.blockOf offs) :=
  (hrun.invariant (fun _ _ h hs => RaNandChip.Marked.step h hs)
    (RaNandChip.marked_nandBlockMarkbad hchecks offs)).reportsBad

/-! ### The mark on flash -/

namespace RaNandChip

variable {c : RaNandChip}

/-- No access fails. -/
def Quiet (c : RaNandChip) : Prop := ∀ n, (c.answers n).fail = false

/-- **The mark does not reach the flash**: the bad-block byte of every page is what it was. -/
theorem flash_nandBlockMarkbad (hquiet : Quiet c) (offs p : Nat) :
    (c.nandBlockMarkbad offs).flash p c.mode.badblockCol = c.flash p c.mode.badblockCol := by
  have hok : c.nfcReadPage (c.mode.pageOf offs) false =
      ((c.nfcReadPage (c.mode.pageOf offs) false).1, .ok ()) := by
    simp [nfcReadPage, pullPage, answer, hquiet c.accesses]
  have hread := programs_nfcReadPage c (c.mode.pageOf offs) false
  have hflash : (c.nfcReadPage (c.mode.pageOf offs) false).1.flash = c.flash := by
    rw [nfcReadPage_fst]
    rfl
  unfold nandBlockMarkbad
  dsimp only
  split
  · rfl
  · rw [hok]
    generalize (c.nfcReadPage (c.mode.pageOf offs) false).1 = c₁ at hread hflash
    dsimp only
    split
    · -- `nfc_write_page` puts `0xff` where the tag was
      have hnext : (c₁.answers c₁.accesses).fail = false := hread.answers_eq ▸ hquiet _
      simp only [nandBbtSet, nfcWritePage, pushPage, program, accessed, answer, hnext]
      rw [← hread.mode_eq]
      simp only [update_self, Bool.not_false, Bool.false_and, Bool.or_self,
        Bool.false_eq_true, if_false, ite_self, hflash]
      exact and_allOnes
    · rw [← hflash]
      rfl

end RaNandChip

theorem RaNandChip.scanTag_of_clean {c : RaNandChip} {page : Nat} (hquiet : c.Quiet)
    (h : c.flash page c.mode.badblockCol = 0xff) : (c.scanTag page).2 = .good := by
  have hpos := RaNandChip.badblockpos_lt c.mode
  have hpage := lt_div_mul_add (a := page) c.mode.pagesPerblock_pos
  have hbug : c.oobBug page c.mode.badblockpos 1 = false := by
    simp only [RaNandChip.oobBug, div_eq_of_lt hpos, Bool.or_eq_false_iff,
      decide_eq_false_iff_not, not_le, not_lt, Nat.add_mul, Nat.one_mul, Nat.zero_add]
    exact ⟨lt_of_succ_lt hpos, hpage.le⟩
  unfold RaNandChip.scanTag RaNandChip.nfcReadOob
  rw [if_neg (by simp [hbug]), if_neg (by simp [RaNandChip.answer, hquiet c.accesses])]
  exact if_pos ((RaNandChip.oobByte_badblockpos c page).trans h)

/-- **A restart forgets the mark** of every good block, at every offset of it. -/
theorem restart_forgets_mark (c : RaNandChip) (hchecks : c.ranfcBbt = true)
    (hquiet : c.Quiet) {offs : Nat} (hoffs : offs ≤ c.mode.chipsize)
    (hgood : c.flash (c.mode.pageOf offs) c.mode.badblockCol = 0xff) :
    ((c.nandBlockMarkbad offs).raNandInit.ramtdNandBlockIsbad offs).2 = .ok false := by
  have hflash := RaNandChip.flash_nandBlockMarkbad hquiet offs (c.mode.pageOf offs)
  -- the rest of the driver is as it was before the mark
  obtain ⟨hmode, hchecks', hquiet'⟩ : (c.nandBlockMarkbad offs).mode = c.mode ∧
      (c.nandBlockMarkbad offs).ranfcBbt = true ∧ (c.nandBlockMarkbad offs).Quiet := by
    rcases RaNandChip.nandBlockMarkbad_cases c offs with ⟨_, heq⟩ | ⟨c₁, hp, heq⟩
    · rw [heq]
      exact ⟨rfl, hchecks, hquiet⟩
    · rw [heq]
      exact ⟨hp.mode_eq, hp.ranfcBbt_eq.trans hchecks, fun n => hp.answers_eq ▸ hquiet n⟩
  generalize c.nandBlockMarkbad offs = c₁ at hflash hmode hchecks' hquiet'
  rw [hgood, ← hmode] at hflash
  have hscan : (c₁.raNandInit.scanTag (c₁.mode.pageOf offs)).2 = .good :=
    RaNandChip.scanTag_of_clean hquiet' hflash
  unfold RaNandChip.ramtdNandBlockIsbad RaNandChip.nandBlockCheckbad
  rw [if_neg (not_lt.mpr (hmode ▸ hoffs)), if_neg (by simp [RaNandChip.raNandInit, hchecks'])]
  dsimp only
  rw [RaNandChip.nandBbtGet_raNandInit]
  have hverdict : decide ((c₁.raNandInit.scanTag (c₁.mode.pageOf offs)).2 ≠ .good) = false := by
    rw [hscan]
    rfl
  exact congrArg Except.ok hverdict

/-! ### Runs on an erased chip -/

def erasedChip : RaNandChip where
  mode := .page512Addr3
  ranfcBbt := true
  bbt _ := 0
  buffers _ := 0
  flash _ _ := 0xff
  answers _ := { fail := false, noise := fun _ _ => 0xff, ecc := fun _ => 0, wp := false }
  accesses := 0

/-- Block 0 is marked; a page of block 1 is written and read, both blocks are erased, and
    block 0 is asked for. -/
def sparingRun : List NandCall :=
  [.write 16384 512 fun _ => 0x5a, .read 16384 16, .erase 16384 16384, .erase 0 16384, .blockIsbad 0]

theorem marked_block_stays_bad_sparing :
    Along RaNandChip.step (RaNandChip.Spares 0) (erasedChip.nandBlockMarkbad 0) sparingRun ∧
      (runEvents RaNandChip.step (erasedChip.nandBlockMarkbad 0) sparingRun).ReportsBad 0 :=
  have hrun : Along RaNandChip.step (RaNandChip.Spares 0) (erasedChip.nandBlockMarkbad 0)
      sparingRun := by
    refine ⟨fun _ => ?_, fun _ => ?_, trivial, trivial, trivial, trivial⟩
    · unfold RaNandChip.LoopSpares
      decide +kernel
    · unfold RaNandChip.LoopSpares
      decide +kernel
  ⟨hrun, marked_block_stays_bad erasedChip rfl 0 sparingRun hrun⟩

theorem mark_is_not_sticky :
    ¬ ∀ (c : RaNandChip) (offs : Nat) (es : List NandCall), c.ranfcBbt = true → c.Quiet →
      (c.ramtdNandBlockIsbad offs).2 = .ok false →
      (runEvents RaNandChip.step (c.nandBlockMarkbad offs) es).ReportsBad (c.mode.blockOf offs) := by
  intro hall
  have hbad := hall erasedChip 0 [.restart] rfl (fun _ => rfl) (by decide +kernel)
  have hreport : ((erasedChip.nandBlockMarkbad 0).raNandInit.ramtdNandBlockIsbad 0).2 = .ok true :=
    hbad 0 (Nat.zero_le _) rfl
  have hforgotten := restart_forgets_mark erasedChip rfl (fun _ => rfl) (Nat.zero_le _) rfl
  rw [hforgotten] at hreport
  cases hreport

end RalinkSdk.Nand
