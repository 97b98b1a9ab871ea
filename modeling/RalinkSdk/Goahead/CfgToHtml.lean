import Mathlib
import RalinkSdk.Lib.CBytes

/-!
# A stored value on a page of the web server

The pages show stored names with `getCfgToHTML`, which writes the two quotes as character
references.  The text is put together in `ret`, which has 33 bytes: enough for a name of 32
characters as it is stored.

The walk over the value looks at the byte at `tok` before it tests for the NUL, so that of an empty
value it looks at the NUL and then at what stands behind it in memory, `behind`.

## Source

`user/goahead/src_tongyong/utils.c`.
-/

namespace RalinkSdk.Goahead

open Lib List Option Nat

/-! ## The function -/

/-- What is put for a character: `"&#34;"` and `"&#39;"` for the two quotes. -/
def escapeOf (c : UInt8) : Option (List UInt8) :=
  if c = 34 then some [38, 35, 51, 52, 59]
  else if c = 39 then some [38, 35, 51, 57, 59]
  else none

/-- The locals of `getCfgToHTML`: `head` and `tok` as offsets from `value`, the text in `ret`, and
    how many bytes from the start of `ret` on were written so far.  A text that leaves `ret` goes on
    here, and `written` says that it left. -/
structure Walk where
  head : Nat
  tok : Nat
  ret : List UInt8
  written : Nat

/-- Before the loop: `memset(ret, 0, 33)`, `tok = head = value`. -/
def Walk.start : Walk := ⟨0, 0, [], 33⟩

/-- `strcat(ret, bs)`, with the NUL behind the text. -/
def Walk.cat (w : Walk) (bs : List UInt8) : Walk :=
  { w with ret := w.ret ++ bs, written := max w.written ((w.ret ++ bs).length + 1) }

/-- The string of at most `len` bytes at an offset of the memory, as `strncat` takes it. -/
def strnAt (mem : List UInt8) (offset len : Nat) : List UInt8 :=
  ((mem.drop offset).take len).takeWhile (· ≠ 0)

/-- One pass of the loop, with `*tok` being `c`. -/
def Walk.pass (mem : List UInt8) (c : UInt8) (w : Walk) : Walk :=
  match escapeOf c with
  | some esc =>
    { (w.cat (strnAt mem w.head (w.tok - w.head))).cat esc with
      head := w.tok + 1
      tok := w.tok + 1 }
  | none => { w with tok := w.tok + 1 }

/-- `do { .. tok++; } while (*tok != '\0')` on the memory from `tok` on.  `none` stands for a walk
    that meets no NUL. -/
def walk (mem : List UInt8) : List UInt8 → Walk → Option Walk
  | [], _ => none
  | c :: rest, w =>
    if rest.head? = some 0 then some (w.pass mem c) else walk mem rest (w.pass mem c)

/-- What a call leaves: the text, how many bytes of `ret` were written, and how many bytes from
    `value` on were read. -/
structure Html where
  text : List UInt8
  written : Nat
  reads : Nat

/-- From `memset` to the last `strcat`. -/
def escapeValue (mem : List UInt8) : Option Html :=
  (walk mem mem Walk.start).map fun w =>
    let ret := w.cat (strnAt mem w.head mem.length)
    ⟨ret.ret, ret.written, w.tok + 1⟩

/-- Where the text goes. -/
inductive Reply where
  /-- `websWrite` -/
  | page (html : Html)
  /-- `ejSetResult` -/
  | result (html : Html)

def Reply.html : Reply → Html
  | page html => html
  | result html => html

def memoryOf (value : CStr) (behind : List UInt8) : List UInt8 := value.bytes ++ 0 :: behind

/-- `getCfgToHTML` with the arguments that `ejArgs` finds, `none` if there are less than two.
    `nvram_bufget` returns no `NULL`. -/
def getCfgToHTML (nvram : String → CStr) (behind : List UInt8) :
    Option (Int × String) → Option Reply
  | none => some (.page ⟨"Insufficient args\n".toUTF8.toList, 0, 0⟩)
  | some (type, field) =>
    let html := escapeValue (memoryOf (nvram field) behind)
    if type = 1 then html.map .page else html.map .result

/-! ## Escaping -/

/-- The value with its special characters escaped; `backslash` is put for a backslash. -/
def escapeWith (backslash : List UInt8) (bs : List UInt8) : List UInt8 :=
  bs.flatMap fun c => if c = 92 then backslash else (escapeOf c).getD [c]

/-- What `getCfgToHTML` puts for the characters one by one. -/
def escape (bs : List UInt8) : List UInt8 := bs.flatMap fun c => (escapeOf c).getD [c]

theorem escape_append (a b : List UInt8) : escape (a ++ b) = escape a ++ escape b :=
  flatMap_append

theorem escape_singleton (c : UInt8) : escape [c] = (escapeOf c).getD [c] :=
  flatMap_singleton _ c

variable {bs : List UInt8}

theorem escape_eq_self (h : ∀ c ∈ bs, escapeOf c = none) : escape bs = bs := by
  induction bs with
  | nil => rfl
  | cons c bs ih =>
    have hc := h c mem_cons_self
    have hrest := ih fun c' hc' => h c' (mem_cons_of_mem c hc')
    rw [escape, flatMap_cons, hc, getD_none, ← escape, hrest]
    rfl

theorem length_escape (bs : List UInt8) :
    (escape bs).length = bs.length + 4 * (bs.count 34 + bs.count 39) := by
  induction bs with
  | nil => rfl
  | cons c bs ih =>
    rw [← singleton_append, escape_append, length_append, ih, escape_singleton]
    simp only [singleton_append, length_cons, count_cons, escapeOf]
    split_ifs <;> simp_all <;> omega

theorem escapeWith_backslash (bs : List UInt8) : escapeWith [92] bs = escape bs := by
  apply congrArg (flatMap · bs)
  funext c
  split_ifs with hc
  · subst hc
    rfl
  · rfl

theorem escapeWith_of_not_mem (backslash : List UInt8) (h : (92 : UInt8) ∉ bs) :
    escapeWith backslash bs = escape bs := by
  apply flatMap_congr
  intro c hc
  rw [if_neg]
  rintro rfl
  exact h hc

theorem length_escapeWith (backslash bs : List UInt8) :
    (escapeWith backslash bs).length + bs.count 92 =
      (escape bs).length + bs.count 92 * backslash.length := by
  induction bs with
  | nil => simp [escapeWith, escape]
  | cons c bs ih =>
    rw [escapeWith, escape, flatMap_cons, flatMap_cons, ← escapeWith, ← escape,
      length_append, length_append, count_cons]
    by_cases hc : c = 92
    · subst hc
      have hself : ((escapeOf 92).getD [92]).length = 1 := rfl
      simp only [if_true, beq_self_eq_true, hself, Nat.succ_mul]
      omega
    · simp only [if_neg hc, beq_iff_eq, Nat.add_zero]
      omega

theorem escapeWith_eq_escape_iff (backslash bs : List UInt8) :
    escapeWith backslash bs = escape bs ↔ ((92 : UInt8) ∈ bs → backslash = [92]) := by
  constructor
  · intro heq hmem
    -- the lengths agree only if one character stands for one
    have hlen := length_escapeWith backslash bs
    have hpos : 0 < bs.count 92 := count_pos_iff.mpr hmem
    rw [heq] at hlen
    have hone : backslash.length = 1 := by
      apply Nat.eq_of_mul_eq_mul_left hpos
      omega
    obtain ⟨b, rfl⟩ := length_eq_one_iff.mp hone
    have hin : (92 : UInt8) ∈ escapeWith [b] bs := by
      rw [heq, escape, mem_flatMap]
      exact ⟨92, hmem, mem_singleton_self 92⟩
    rw [escapeWith, mem_flatMap] at hin
    obtain ⟨c, -, hc⟩ := hin
    by_cases h92 : c = 92
    · rw [if_pos h92, mem_singleton] at hc
      rw [hc]
    · -- neither reference has a backslash in it
      rw [if_neg h92, escapeOf] at hc
      split_ifs at hc with h₁ h₂
      · simp at hc
      · simp at hc
      · exact absurd (mem_singleton.mp hc).symm h92
  · intro h
    by_cases hmem : (92 : UInt8) ∈ bs
    · rw [h hmem, escapeWith_backslash]
    · exact escapeWith_of_not_mem backslash hmem

/-! ## The walk -/

/-- What holds after the first `tok` characters of a value: `ret` has the escaped text up to `head`,
    and from there on no character is special. -/
structure Walk.Inv (bs : List UInt8) (w : Walk) : Prop where
  head_le : w.head ≤ w.tok
  ret : w.ret = escape (bs.take w.head)
  plain : ∀ c ∈ (bs.take w.tok).drop w.head, escapeOf c = none
  written : w.written = max 33 (w.ret.length + 1)

theorem Walk.cat_written {w : Walk} (h : w.written = max 33 (w.ret.length + 1)) (bs : List UInt8) :
    (w.cat bs).written = max 33 ((w.cat bs).ret.length + 1) := by
  simp only [Walk.cat, h, length_append]
  omega

theorem strnAt_eq (hnul : (0 : UInt8) ∉ bs) (behind : List UInt8) {head tok : Nat}
    (htok : tok ≤ bs.length) :
    strnAt (bs ++ 0 :: behind) head (tok - head) = (bs.take tok).drop head := by
  have hcut : ((bs ++ 0 :: behind).drop head).take (tok - head) = (bs.take tok).drop head := by
    rw [← drop_take, take_append_of_le_length htok]
  rw [strnAt, hcut, takeWhile_eq_self_iff]
  intro c hc
  have hmem : c ∈ bs := mem_of_mem_take (mem_of_mem_drop hc)
  have hne : c ≠ 0 := fun h => hnul (h ▸ hmem)
  simpa using hne

theorem strnAt_rest (hnul : (0 : UInt8) ∉ bs) (behind : List UInt8) {head : Nat}
    (hhead : head ≤ bs.length) :
    strnAt (bs ++ 0 :: behind) head (bs ++ 0 :: behind).length = bs.drop head := by
  have hplain : ∀ c ∈ bs.drop head, decide (c ≠ 0) = true := by
    intro c hc
    have hne : c ≠ 0 := fun h => hnul (h ▸ mem_of_mem_drop hc)
    simpa using hne
  rw [strnAt, drop_append_of_le_length hhead, take_of_length_le (by simp),
    takeWhile_append_of_pos hplain, takeWhile_cons_of_neg (by simp), append_nil]

theorem take_succ_drop {head tok : Nat} {c : UInt8} (hc : bs[tok]? = some c)
    (hhead : head ≤ tok) : (bs.take (tok + 1)).drop head = (bs.take tok).drop head ++ [c] := by
  have hlen : tok < bs.length := (List.getElem?_eq_some_iff.mp hc).1
  rw [take_add_one, hc, drop_append_of_le_length]
  · rfl
  · rw [length_take]
    omega

/-- **One pass** keeps the invariant. -/
theorem Walk.Inv.pass (hnul : (0 : UInt8) ∉ bs) (behind : List UInt8) {w : Walk}
    (h : w.Inv bs) {c : UInt8} (hc : bs[w.tok]? = some c) :
    (w.pass (bs ++ 0 :: behind) c).Inv bs := by
  have hlen : w.tok < bs.length := (List.getElem?_eq_some_iff.mp hc).1
  have hle := h.head_le
  rw [Walk.pass]
  cases hesc : escapeOf c with
  | none =>
    -- the character joins those that are not copied yet
    refine ⟨le_succ_of_le hle, h.ret, ?_, h.written⟩
    intro c' hc'
    rw [take_succ_drop hc hle, mem_append, mem_singleton] at hc'
    rcases hc' with hold | rfl
    · exact h.plain c' hold
    · exact hesc
  | some esc =>
    -- these are copied, and the reference comes behind them
    have hspan : strnAt (bs ++ 0 :: behind) w.head (w.tok - w.head) = (bs.take w.tok).drop w.head :=
      strnAt_eq hnul behind hlen.le
    have htext : w.ret ++ (bs.take w.tok).drop w.head = escape (bs.take w.tok) := by
      conv_rhs => rw [← take_append_drop w.head (bs.take w.tok)]
      rw [escape_append, escape_eq_self h.plain, take_take, min_eq_left hle, h.ret]
    constructor
    case head_le => exact le_rfl
    case ret =>
      show w.ret ++ strnAt _ w.head (w.tok - w.head) ++ esc = escape (bs.take (w.tok + 1))
      rw [hspan, htext, take_add_one, hc, escape_append, toList_some, escape_singleton, hesc]
      rfl
    case plain =>
      intro c' hc'
      rw [drop_eq_nil_of_le (by simp)] at hc'
      cases hc'
    case written => exact Walk.cat_written (Walk.cat_written h.written _) esc

theorem Walk.pass_tok (mem : List UInt8) (c : UInt8) (w : Walk) : (w.pass mem c).tok = w.tok + 1 := by
  rw [Walk.pass]
  cases escapeOf c <;> rfl

theorem walk_eq (hnul : (0 : UInt8) ∉ bs) (behind : List UInt8) {c : UInt8}
    {rest : List UInt8} {w : Walk} (h : w.Inv bs) (hsuffix : bs.drop w.tok = c :: rest) :
    ∃ w', walk (bs ++ 0 :: behind) (c :: rest ++ 0 :: behind) w = some w' ∧ w'.Inv bs ∧
      w'.tok = bs.length := by
  induction rest generalizing c w with
  | nil =>
    -- the NUL of the value comes next
    have hc : bs[w.tok]? = some c := by
      rw [← head?_drop, hsuffix, head?_cons]
    have hlen := congrArg List.length hsuffix
    rw [length_drop] at hlen
    refine ⟨w.pass _ c, by simp [walk], h.pass hnul behind hc, ?_⟩
    rw [Walk.pass_tok]
    simp only [length_cons, length_nil] at hlen
    omega
  | cons d rest ih =>
    have hc : bs[w.tok]? = some c := by
      rw [← head?_drop, hsuffix, head?_cons]
    have hnext : bs.drop (w.pass (bs ++ 0 :: behind) c).tok = d :: rest := by
      rw [Walk.pass_tok, ← tail_drop, hsuffix, tail_cons]
    have hd : d ≠ 0 := by
      rintro rfl
      exact hnul (mem_of_mem_drop (hnext ▸ mem_cons_self))
    obtain ⟨w', hwalk, hw'⟩ := ih (h.pass hnul behind hc) hnext
    refine ⟨w', ?_, hw'⟩
    rw [cons_append, walk, if_neg (by simpa using hd)]
    exact hwalk

/-- **A value that is not empty** is escaped character by character, and the walk ends at its
    NUL. -/
theorem escapeValue_eq (value : CStr) (behind : List UInt8) (hne : value.bytes ≠ []) :
    escapeValue (memoryOf value behind) =
      some ⟨escape value.bytes, max 33 ((escape value.bytes).length + 1), value.strlen + 1⟩ := by
  obtain ⟨c, rest, hbytes⟩ := exists_cons_of_ne_nil hne
  have hstart : Walk.start.Inv value.bytes := by
    refine ⟨le_rfl, rfl, ?_, rfl⟩
    intro c' hc'
    cases hc'
  have hsuffix : value.bytes.drop Walk.start.tok = c :: rest := hbytes
  obtain ⟨w, hwalk, hInv, htok⟩ := walk_eq value.noNul behind hstart hsuffix
  -- the last `strcat` copies what is behind the last special character
  have hhead : w.head ≤ value.bytes.length := htok ▸ hInv.head_le
  have htext : w.ret ++ value.bytes.drop w.head = escape value.bytes := by
    have hplain := hInv.plain
    rw [htok, take_length] at hplain
    conv_rhs => rw [← take_append_drop w.head value.bytes]
    rw [escape_append, escape_eq_self hplain, hInv.ret]
  have hcat := Walk.cat_written hInv.written (value.bytes.drop w.head)
  have hret : (w.cat (value.bytes.drop w.head)).ret = escape value.bytes := htext
  rw [← hbytes] at hwalk
  rw [escapeValue, memoryOf, hwalk, map_some, strnAt_rest value.noNul behind hhead]
  dsimp only
  rw [hcat, hret, htok]
  rfl

/-! ## The empty value -/

theorem walk_tok_lt {mem rest : List UInt8} {w w' : Walk} (h : walk mem rest w = some w') :
    w.tok < w'.tok := by
  induction rest generalizing w with
  | nil => cases h
  | cons c rest ih =>
    rw [walk] at h
    split_ifs at h
    · rw [← some.inj h, Walk.pass_tok]
      exact lt_succ_self _
    · have hrest := ih h
      rw [Walk.pass_tok] at hrest
      exact lt_of_succ_lt hrest

theorem reads_gt {mem : List UInt8} {html : Html} (h : escapeValue mem = some html) :
    1 < html.reads := by
  rw [escapeValue, map_eq_some_iff] at h
  obtain ⟨w, hwalk, rfl⟩ := h
  exact succ_lt_succ (walk_tok_lt hwalk)

/-! ## Result -/

/-- The text is the value with its special characters escaped, it is put together within `ret`, and
    nothing behind the NUL of the value is read. -/
structure Html.Right (backslash : List UInt8) (value : CStr) (html : Html) : Prop where
  text : html.text = escapeWith backslash value.bytes
  written : html.written ≤ 33
  reads : html.reads ≤ value.strlen + 1

/-- A call for a field that has the value ends, and with the right text. -/
def ShowsEscaped (backslash behind : List UInt8) (value : CStr) : Prop :=
  ∀ (nvram : String → CStr) (type : Int) (field : String), nvram field = value →
    ∃ reply, getCfgToHTML nvram behind (some (type, field)) = some reply ∧
      reply.html.Right backslash value

theorem showsEscaped_iff (backslash behind : List UInt8) (value : CStr) :
    ShowsEscaped backslash behind value ↔
      ∃ html, escapeValue (memoryOf value behind) = some html ∧ html.Right backslash value := by
  constructor
  · intro h
    obtain ⟨reply, hreply, hright⟩ := h (fun _ => value) 1 "" rfl
    rw [getCfgToHTML, if_pos rfl, map_eq_some_iff] at hreply
    obtain ⟨html, hhtml, rfl⟩ := hreply
    exact ⟨html, hhtml, hright⟩
  · rintro ⟨html, hhtml, hright⟩ nvram type field rfl
    by_cases htype : type = 1
    · refine ⟨.page html, ?_, hright⟩
      rw [getCfgToHTML, if_pos htype, hhtml]
      rfl
    · refine ⟨.result html, ?_, hright⟩
      rw [getCfgToHTML, if_neg htype, hhtml]
      rfl

/-- **A stored value on a page** is escaped as it should be exactly if it is not empty, if with four
    more characters for each quote it has at most 32, and if a backslash in it is meant to stay. -/
theorem cfg_to_html_iff (backslash behind : List UInt8) (value : CStr) :
    ShowsEscaped backslash behind value ↔
      value.bytes ≠ [] ∧ value.strlen + 4 * (value.bytes.count 34 + value.bytes.count 39) ≤ 32 ∧
        ((92 : UInt8) ∈ value.bytes → backslash = [92]) := by
  rw [showsEscaped_iff, ← escapeWith_eq_escape_iff, CStr.strlen, ← length_escape]
  by_cases hne : value.bytes = []
  · -- the NUL is not the last byte that is read
    refine iff_of_false ?_ fun h => h.1 hne
    rintro ⟨html, hhtml, hright⟩
    have hreads := hright.reads
    rw [CStr.strlen, hne] at hreads
    exact absurd (reads_gt hhtml) (Nat.not_lt.mpr hreads)
  · rw [escapeValue_eq value behind hne]
    constructor
    · rintro ⟨html, hhtml, hright⟩
      obtain rfl := Option.some.inj hhtml
      have hwritten := (le_max_right _ _).trans hright.written
      exact ⟨hne, Nat.le_of_succ_le_succ hwritten, hright.text.symm⟩
    · rintro ⟨-, hfits, htext⟩
      refine ⟨_, rfl, htext.symm, ?_, le_rfl⟩
      exact max_le le_rfl (Nat.succ_le_succ hfits)

/-- Seven quotes are 35 characters on the page. -/
theorem seven_quotes_leave_ret :
    ¬ ∃ backslash, ∀ (behind : List UInt8) (value : CStr), value.strlen ≤ 32 →
      ShowsEscaped backslash behind value := by
  rintro ⟨backslash, h⟩
  -- without a backslash it does not matter what is put for one
  have hseven := h [] ⟨List.replicate 7 34, by decide⟩ (by decide)
  obtain ⟨html, hhtml, hright⟩ := (showsEscaped_iff _ _ _).mp hseven
  have hcall : (escapeValue (memoryOf ⟨List.replicate 7 34, by decide⟩ [])).map (·.written) =
      some 36 := by decide
  rw [hhtml, Option.map_some, Option.some.injEq] at hcall
  have hwritten := hright.written
  rw [hcall] at hwritten
  exact absurd hwritten (by decide)

end RalinkSdk.Goahead
