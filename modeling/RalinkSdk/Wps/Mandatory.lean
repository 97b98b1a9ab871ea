import RalinkSdk.Wps.Agreement

/-!
# The check for mandatory attributes

`ProcessMessageM1` to `ProcessMessageM6` begin with a set bit for each attribute that has to be
there.  Each such attribute inverts its bit, so that a second one sets it again: a message is
refused exactly when one of them occurs an even number of times.

An attribute without a value at the end of a message is not looked at, and encrypted settings that
are too short or too long do not count.  In M4, M5 and M6 the hash over a half of the PIN is
compared first.
-/

namespace RalinkSdk.Wps

open Lib List Option

variable (crypt : CryptFns)

/-! ## The attributes of a message -/

variable {p : List Byte} {len : Nat}

theorem length_of_readHeader {type : BitVec 16} {rest : List Byte}
    (h : readHeader p = some (type, len, rest)) : p.length = rest.length + 4 := by
  unfold readHeader at h
  split at h
  · cases h
    rfl
  · cases h

theorem exists_readHeader {msg : List Byte} (h : 4 ≤ msg.length) :
    ∃ type len p, readHeader msg = some (type, len, p) ∧
      ∀ rest, readHeader (msg ++ rest) = some (type, len, p ++ rest) := by
  obtain ⟨t₁, msg, rfl⟩ := exists_cons_of_length_pos (by omega : 0 < msg.length)
  rw [length_cons] at h
  obtain ⟨t₀, msg, rfl⟩ := exists_cons_of_length_pos (by omega : 0 < msg.length)
  rw [length_cons] at h
  obtain ⟨l₁, msg, rfl⟩ := exists_cons_of_length_pos (by omega : 0 < msg.length)
  rw [length_cons] at h
  obtain ⟨l₀, msg, rfl⟩ := exists_cons_of_length_pos (by omega : 0 < msg.length)
  exact ⟨_, _, _, rfl, fun _ => rfl⟩

/-- The types and lengths of the attributes of a message, each of which begins with `least` bytes
    to go or more. -/
def attrsOf (least : Nat) (p : List Byte) : List (BitVec 16 × Nat) :=
  match _h : readHeader p with
  | some (type, len, rest) =>
    if least ≤ p.length then (type, len) :: attrsOf least (rest.drop len) else []
  | none => []
termination_by p.length
decreasing_by
  have hlen := length_of_readHeader _h
  rw [length_drop]
  omega

/-- The message has no such attribute. -/
def Absent (msg : List Byte) (id : WscId) : Prop := ∀ a ∈ attrsOf 4 msg, WscId.ofType a.1 ≠ some id

/-- An attribute counts, unless it is encrypted settings of a length that is passed over. -/
def Counts (id : WscId) (len : Nat) : Bool := id ≠ .encrSettings || (16 < len && len ≤ 512)

/-- How often an attribute is counted. -/
def occurrences (msg : List Byte) (id : WscId) : Nat :=
  ((attrsOf 5 msg).filter fun a => WscId.ofType a.1 = some id ∧ Counts id a.2).length

/-- The number of counted occurrences is odd for every mandatory attribute. -/
def AllOdd (mandatory : List WscId) (msg : List Byte) : Prop :=
  ∀ id ∈ mandatory, occurrences msg id % 2 = 1

def SomeAbsent (mandatory : List WscId) (msg : List Byte) : Prop :=
  ∃ id ∈ mandatory, Absent msg id

theorem attrsOf_of_header {least : Nat} {type : BitVec 16}
    {rest : List Byte} (h : readHeader p = some (type, len, rest)) : attrsOf least p =
      if least ≤ p.length then (type, len) :: attrsOf least (rest.drop len) else [] := by
  rw [attrsOf]
  split
  next h' =>
    rw [h] at h'
    cases h'
    rfl
  next h' =>
    rw [h] at h'
    cases h'

theorem attrsOf_of_none {least : Nat} (h : readHeader p = none) : attrsOf least p = [] := by
  rw [attrsOf]
  split
  next h' =>
    rw [h] at h'
    cases h'
  next => rfl

/-! ## The bits after the walk -/

/-- The handler inverts the bits of the mandatory attributes, where they count, and no others. -/
def Toggles (mandatory : List WscId) (handle : WscId → Nat → List Byte → Parse → Option Parse) :
    Prop :=
  ∀ id len p s s', handle id len p s = some s' →
    s'.fieldCheck = if id ∈ mandatory ∧ Counts id len then toggle s.fieldCheck id else s.fieldCheck

/-- An attribute turns its bit. -/
def turned (mandatory : List WscId) (fieldCheck : WscId → Bool) (a : BitVec 16 × Nat) :
    WscId → Bool :=
  match WscId.ofType a.1 with
  | some id => if id ∈ mandatory ∧ Counts id a.2 then toggle fieldCheck id else fieldCheck
  | none => fieldCheck

section

variable {mandatory : List WscId} {handle : WscId → Nat → List Byte → Parse → Option Parse}

theorem Toggles.dispatch (h : Toggles mandatory handle) {type : BitVec 16} {len : Nat}
    {p : List Byte} {s s' : Parse} (hrun : dispatch handle type len p s = some s') :
    s'.fieldCheck = turned mandatory s.fieldCheck (type, len) := by
  unfold Wps.dispatch at hrun
  unfold turned
  dsimp only
  cases hid : WscId.ofType type with
  | none =>
    rw [hid] at hrun
    cases hrun
    rfl
  | some id =>
    rw [hid] at hrun
    exact h id len p s s' hrun

theorem Toggles.scan (h : Toggles mandatory handle) {msg rest : List Byte} {s s' : Parse}
    (hrun : scan (Wps.dispatch handle) msg.length (msg ++ rest) s = some s') :
    s'.fieldCheck = (attrsOf 5 msg).foldl (turned mandatory) s.fieldCheck := by
  induction hn : msg.length using Nat.strong_induction_on generalizing msg s with
  | _ n ih =>
    subst hn
    rw [Lib.scan] at hrun
    split at hrun
    next hgo =>
      obtain ⟨type, len, p, hmsg, hheader⟩ := exists_readHeader (by omega : 4 ≤ msg.length)
      rw [hheader rest, bind_eq_bind, bind_some] at hrun
      obtain ⟨s₁, hhandle, hrun⟩ := bind_eq_some_iff.mp hrun
      have hlen := length_of_readHeader hmsg
      rw [attrsOf_of_header hmsg, if_pos (by omega), foldl_cons, ← h.dispatch hhandle]
      by_cases hin : len ≤ p.length
      · have hdrop : (p ++ rest).drop len = p.drop len ++ rest := drop_append_of_le_length hin
        have hleft : msg.length - 4 - len = (p.drop len).length := by
          rw [length_drop]
          omega
        rw [hdrop, hleft] at hrun
        exact ih _ (by rw [length_drop]; omega) hrun rfl
      · -- the value goes beyond the message: the walk is over
        have hzero : msg.length - 4 - len = 0 := by omega
        rw [hzero, scan_stop (by omega)] at hrun
        cases hrun
        rw [drop_eq_nil_of_le (by omega), attrsOf_of_none rfl]
        rfl
    next hstop =>
      cases hrun
      cases hheader : readHeader msg with
      | none => rw [attrsOf_of_none hheader]; rfl
      | some header =>
        obtain ⟨type, len, p⟩ := header
        rw [attrsOf_of_header hheader, if_neg (by omega)]
        rfl

theorem turned_apply (fieldCheck : WscId → Bool) (a : BitVec 16 × Nat) {id : WscId}
    (hid : id ∈ mandatory) : turned mandatory fieldCheck a id =
      (fieldCheck id ^^ decide (WscId.ofType a.1 = some id ∧ Counts id a.2)) := by
  unfold turned
  cases htype : WscId.ofType a.1 with
  | none => simp
  | some id' =>
    by_cases heq : id' = id
    · subst heq
      by_cases hcounts : Counts id' a.2
      · simp [hid, hcounts, toggle]
      · simp [hcounts]
    · have hne : id ≠ id' := Ne.symm heq
      have hsome : ¬ (some id' = some id ∧ Counts id a.2) := fun h => heq (some.inj h.1)
      rw [decide_eq_false hsome, Bool.xor_false]
      dsimp only
      split
      · exact Function.update_of_ne hne _ _
      · rfl

theorem foldl_turned (attrs : List (BitVec 16 × Nat)) (fieldCheck : WscId → Bool) {id : WscId}
    (hid : id ∈ mandatory) : attrs.foldl (turned mandatory) fieldCheck id = (fieldCheck id ^^
      decide ((attrs.filter fun a => WscId.ofType a.1 = some id ∧ Counts id a.2).length % 2 =
        1)) := by
  induction attrs generalizing fieldCheck with
  | nil => simp
  | cons a attrs ih =>
    rw [foldl_cons, ih, turned_apply _ _ hid, filter_cons]
    generalize (attrs.filter fun a => WscId.ofType a.1 = some id ∧ Counts id a.2) = turns
    by_cases ha : WscId.ofType a.1 = some id ∧ Counts id a.2
    · rw [decide_eq_true ha, if_pos rfl, length_cons]
      rcases Nat.mod_two_eq_zero_or_one turns.length with h | h
      · have hnext : (turns.length + 1) % 2 = 1 := by omega
        rw [h, hnext, decide_eq_true rfl, decide_eq_false (by omega), Bool.xor_false]
      · have hnext : (turns.length + 1) % 2 = 0 := by omega
        rw [h, hnext, decide_eq_true rfl, decide_eq_false (by omega), Bool.xor_false,
          Bool.xor_assoc, Bool.xor_self, Bool.xor_false]
    · rw [decide_eq_false ha, Bool.xor_false, if_neg (by decide)]

theorem foldl_turned_of_not_mem (attrs : List (BitVec 16 × Nat)) (fieldCheck : WscId → Bool)
    {id : WscId} (hid : id ∉ mandatory) :
    attrs.foldl (turned mandatory) fieldCheck id = fieldCheck id := by
  induction attrs generalizing fieldCheck with
  | nil => rfl
  | cons a attrs ih =>
    rw [foldl_cons, ih]
    unfold turned
    cases WscId.ofType a.1 with
    | none => rfl
    | some id' =>
      dsimp only
      split
      next h => exact Function.update_of_ne (fun heq => hid (by rw [heq]; exact h.1)) _ _
      next => rfl

theorem mem_all (id : WscId) : id ∈ WscId.all := by
  cases id <;> decide

/-- **The bits**: after the walk one is set exactly when a mandatory attribute counts an even
    number of times. -/
theorem parsed_wanting_iff (h : Toggles mandatory handle) {hmac : Buf 8} {msg : List Byte}
    {c : WscCtrl} {s : Parse} (hrun : receiveFrom mandatory handle hmac msg c = some s) :
    s.wanting = true ↔ ¬ AllOdd mandatory msg := by
  obtain ⟨s₀, hstart, hparse⟩ := bind_eq_some_iff.mp hrun
  obtain ⟨m, hsave, hs₀⟩ := bind_eq_some_iff.mp hstart
  obtain ⟨data, hstore, hm⟩ := bind_eq_some_iff.mp hsave
  cases hm
  cases hs₀
  have hdata := Buf.bytes_of_store hstore
  have hbits : s.fieldCheck = (attrsOf 5 msg).foldl (turned mandatory) fun id =>
      mandatory.contains id := by
    unfold parseMessage at hparse
    dsimp only [WscCtrl.onReg] at hparse
    rw [hdata] at hparse
    exact h.scan hparse
  have hbit : ∀ id, s.fieldCheck id = true ↔ id ∈ mandatory ∧ ¬ occurrences msg id % 2 = 1 := by
    intro id
    rw [hbits]
    by_cases hid : id ∈ mandatory
    · rw [foldl_turned _ _ hid, contains_iff_mem.mpr hid]
      simp [hid, occurrences]
    · rw [foldl_turned_of_not_mem _ _ hid]
      simp [hid]
  rw [Parse.wanting, List.any_eq_true]
  constructor
  · rintro ⟨id, -, hset⟩ hodd
    obtain ⟨hid, heven⟩ := (hbit id).mp hset
    exact heven (hodd id hid)
  · intro hodd
    unfold AllOdd at hodd
    push Not at hodd
    obtain ⟨id, hid, heven⟩ := hodd
    exact ⟨id, mem_all id, (hbit id).mpr ⟨hid, heven⟩⟩

end

/-! ## The handlers -/

/-- The attributes of M1 and M2 that invert their bits in the common part. -/
def peerInfoIds : List WscId :=
  [.version, .msgType, .authTypeFlags, .encrTypeFlags, .connTypeFlags, .configMethods,
    .manufacturer, .modelName, .modelNumber, .serialNum, .primDevType, .deviceName, .rfBand,
    .assocState, .configError, .osVersion]

theorem fieldCheck_parsePeerInfo {id : WscId} {s s' : Parse}
    (h : parsePeerInfo id len p s = some s') :
    s'.fieldCheck = if id ∈ peerInfoIds then toggle s.fieldCheck id else s.fieldCheck := by
  cases id with
  | vendorExt =>
    simp only [parsePeerInfo] at h
    split at h
    · obtain ⟨_, rfl⟩ := of_bind_some h
      rfl
    · cases h
      rfl
  | _ =>
    first
    | obtain ⟨_, rfl⟩ := of_bind_some h; rfl
    | cases h; rfl

theorem toggles_parseM1 : Toggles mandatoryM1 parseM1 := by
  intro id len p s s' h
  cases id with
  | vendorExt =>
    have hmem : WscId.vendorExt ∉ mandatoryM1 := by decide
    rw [if_neg fun hall => hmem hall.1]
    exact @fieldCheck_parsePeerInfo p len .vendorExt s s' h
  | scState =>
    obtain ⟨read, -, h⟩ := bind_eq_some_iff.mp h
    obtain ⟨scState, -, h⟩ := bind_eq_some_iff.mp h
    cases h
    split <;> rfl
  | _ =>
    first
    | obtain ⟨_, rfl⟩ := of_bind_some h; rfl
    | cases h; rfl

theorem toggles_parseM2 : Toggles mandatoryM2 parseM2 := by
  intro id len p s s' h
  cases id with
  | vendorExt =>
    have hmem : WscId.vendorExt ∉ mandatoryM2 := by decide
    rw [if_neg fun hall => hmem hall.1]
    exact @fieldCheck_parsePeerInfo p len .vendorExt s s' h
  | _ =>
    first
    | obtain ⟨_, rfl⟩ := of_bind_some h; rfl
    | cases h; rfl

theorem toggles_parseM3 : Toggles mandatoryM3 parseM3 := by
  intro id len p s s' h
  cases id with
  | _ =>
    first
    | obtain ⟨_, rfl⟩ := of_bind_some h; rfl
    | cases h; rfl

theorem fieldCheck_parseEncrSettings {s s' : Parse}
    (h : parseEncrSettings crypt len p s = some s') : s'.fieldCheck =
      if Counts .encrSettings len then toggle s.fieldCheck .encrSettings else s.fieldCheck := by
  unfold parseEncrSettings at h
  split at h
  next hlen =>
    cases h
    rw [if_neg]
    simp [Counts]
    omega
  next hlen =>
    obtain ⟨⟨c, encrLen⟩, -, h⟩ := bind_eq_some_iff.mp h
    rw [if_pos (by simp [Counts]; omega)]
    obtain ⟨_, rfl⟩ := of_bind_some h
    rfl

variable {mandatory : List WscId}

theorem toggles_parseEncrSettings (hmem : WscId.encrSettings ∈ mandatory) {s s' : Parse}
    (h : parseEncrSettings crypt len p s = some s') : s'.fieldCheck =
      if WscId.encrSettings ∈ mandatory ∧ Counts .encrSettings len then
        toggle s.fieldCheck .encrSettings else s.fieldCheck := by
  simp only [hmem, true_and]
  exact fieldCheck_parseEncrSettings crypt h

theorem toggles_parseM4 : Toggles mandatoryM4 (parseM4 crypt) := by
  intro id len p s s' h
  cases id with
  | encrSettings => exact toggles_parseEncrSettings crypt (by decide) h
  | _ =>
    first
    | obtain ⟨_, rfl⟩ := of_bind_some h; rfl
    | cases h; rfl

theorem toggles_parseM5 : Toggles mandatoryM5 (parseM5 crypt) := by
  intro id len p s s' h
  cases id with
  | encrSettings => exact toggles_parseEncrSettings crypt (by decide) h
  | _ =>
    first
    | obtain ⟨_, rfl⟩ := of_bind_some h; rfl
    | cases h; rfl

theorem toggles_parseM6 : Toggles mandatoryM6 (parseM6 crypt) := by
  intro id len p s s' h
  cases id with
  | encrSettings => exact toggles_parseEncrSettings crypt (by decide) h
  | _ =>
    first
    | obtain ⟨_, rfl⟩ := of_bind_some h; rfl
    | cases h; rfl

/-! ## The results -/

/-- Some mandatory attribute is not counted. -/
def SomeWanting (mandatory : List WscId) (msg : List Byte) : Prop :=
  ∃ id ∈ mandatory, occurrences msg id = 0

/-- No mandatory attribute is counted an even number of times, other than not at all. -/
def NoneEven (mandatory : List WscId) (msg : List Byte) : Prop :=
  ∀ id ∈ mandatory, occurrences msg id = 0 ∨ occurrences msg id % 2 = 1

theorem NoneEven.not_allOdd_iff {msg : List Byte}
    (h : NoneEven mandatory msg) : ¬ AllOdd mandatory msg ↔ SomeWanting mandatory msg := by
  constructor
  · intro hodd
    unfold AllOdd at hodd
    push Not at hodd
    obtain ⟨id, hid, heven⟩ := hodd
    exact ⟨id, hid, (h id hid).resolve_right heven⟩
  · rintro ⟨id, hid, hzero⟩ hodd
    have hone := hodd id hid
    rw [hzero] at hone
    cases hone

theorem checkMessage_wantingField_iff {s : Parse} {rv : WscError} {c' : WscCtrl}
    (h : checkMessage crypt s = some (rv, c')) :
    c' = s.ctrl ∧ (rv = .wantingField ↔ s.wanting = true) := by
  obtain ⟨ok, -, h⟩ := bind_eq_some_iff.mp h
  cases hwanting : s.wanting with
  | true =>
    rw [hwanting, if_pos rfl] at h
    cases h
    exact ⟨rfl, iff_of_true rfl rfl⟩
  | false =>
    rw [hwanting, if_neg Bool.false_ne_true] at h
    cases ok with
    | true =>
      cases h
      exact ⟨rfl, iff_of_false (by decide) Bool.false_ne_true⟩
    | false =>
      cases h
      exact ⟨rfl, iff_of_false (by decide) Bool.false_ne_true⟩

theorem exists_checkMessage {s : Parse} {ok : Bool}
    (h : checkHmac crypt s.ctrl.regData s.hmac = some ok) :
    ∃ rv, checkMessage crypt s = some (rv, s.ctrl) := by
  rw [checkMessage, h, bind_eq_bind, bind_some]
  cases s.wanting with
  | true => exact ⟨_, rfl⟩
  | false => cases ok with
    | true => exact ⟨_, rfl⟩
    | false => exact ⟨_, rfl⟩

/-- **The check**: what it says about the attributes of the message. -/
theorem checkMessage_receive
    {handle : WscId → Nat → List Byte → Parse → Option Parse} (htoggles : Toggles mandatory handle)
    {msg : List Byte} (heven : NoneEven mandatory msg) {c c₁ c' : WscCtrl} {s s₁ : Parse}
    (hrun : receive mandatory handle msg c = some s) (hsame : s₁ = { s with ctrl := c₁ })
    {rv : WscError} (h : checkMessage crypt s₁ = some (rv, c')) :
    c' = c₁ ∧ (rv = .wantingField ↔ SomeWanting mandatory msg) := by
  subst hsame
  obtain ⟨hc, hrv⟩ := checkMessage_wantingField_iff crypt h
  refine ⟨hc, hrv.trans ?_⟩
  exact (parsed_wanting_iff htoggles hrun).trans heven.not_allOdd_iff

variable {msg : List Byte} {c c' : WscCtrl} {rv : WscError}

theorem processMessageM1_wantingField_iff {random : Buf 192}
    (h : processMessageM1 crypt random msg c = some (rv, c')) (heven : NoneEven mandatoryM1 msg) :
    rv = .wantingField ↔ SomeWanting mandatoryM1 msg := by
  obtain ⟨s, hrun, h⟩ := bind_eq_some_iff.mp h
  rw [← heven.not_allOdd_iff, ← parsed_wanting_iff toggles_parseM1 hrun]
  split at h
  next hwanting =>
    cases h
    exact iff_of_true rfl hwanting
  next hwanting =>
    cases h
    exact iff_of_false (by decide) hwanting

theorem processMessageM2_wantingField_iff (h : processMessageM2 crypt msg c = some (rv, c'))
    (heven : NoneEven mandatoryM2 msg) : rv = .wantingField ↔ SomeWanting mandatoryM2 msg := by
  obtain ⟨s, hrun, h⟩ := bind_eq_some_iff.mp h
  exact (checkMessage_receive crypt toggles_parseM2 heven hrun rfl h).2

theorem processMessageM3_wantingField_iff (h : processMessageM3 crypt msg c = some (rv, c'))
    (heven : NoneEven mandatoryM3 msg) : rv = .wantingField ↔ SomeWanting mandatoryM3 msg := by
  obtain ⟨s, hrun, h⟩ := bind_eq_some_iff.mp h
  exact (checkMessage_receive crypt toggles_parseM3 heven hrun rfl h).2

theorem processMessageM4_wantingField_iff (h : processMessageM4 crypt msg c = some (rv, c'))
    (heven : NoneEven mandatoryM4 msg) :
    let reg := c'.regData
    if reg.rHash1 = reg.hashOf crypt reg.rs1 reg.psk1 then
      rv = .wantingField ↔ SomeWanting mandatoryM4 msg
    else rv = .devPwdAuthFail := by
  obtain ⟨s, hrun, h⟩ := bind_eq_some_iff.mp h
  intro reg
  dsimp only at h
  split at h
  next hhash =>
    cases h
    rw [if_neg hhash]
  next hhash =>
    obtain ⟨rfl, hrv⟩ := checkMessage_receive crypt (toggles_parseM4 crypt) heven hrun rfl h
    rw [if_pos (not_not.mp hhash)]
    exact hrv

theorem processMessageM5_wantingField_iff (h : processMessageM5 crypt msg c = some (rv, c'))
    (heven : NoneEven mandatoryM5 msg) :
    let reg := c'.regData
    if reg.eHash1 = reg.hashOf crypt reg.es1 reg.psk1 then
      rv = .wantingField ↔ SomeWanting mandatoryM5 msg
    else rv = .hashFail := by
  obtain ⟨s, hrun, h⟩ := bind_eq_some_iff.mp h
  obtain ⟨result, hresult, h⟩ := bind_eq_some_iff.mp h
  intro reg
  dsimp only at h
  split at h
  next hhash =>
    cases h
    exact (if_neg hhash).mpr rfl
  next hhash =>
    cases h
    obtain ⟨rfl, hrv⟩ := checkMessage_receive crypt (toggles_parseM5 crypt) heven hrun rfl hresult
    rw [if_pos (not_not.mp hhash)]
    exact hrv

theorem processMessageM6_wantingField_iff (h : processMessageM6 crypt msg c = some (rv, c'))
    (heven : NoneEven mandatoryM6 msg) :
    let reg := c'.regData
    if reg.rHash2 = reg.hashOf crypt reg.rs2 reg.psk2 then
      rv = .wantingField ↔ SomeWanting mandatoryM6 msg
    else rv = .devPwdAuthFail := by
  obtain ⟨s, hrun, h⟩ := bind_eq_some_iff.mp h
  intro reg
  dsimp only at h
  split at h
  next hhash =>
    cases h
    rw [if_neg hhash]
  next hhash =>
    obtain ⟨rfl, hrv⟩ := checkMessage_receive crypt (toggles_parseM6 crypt) heven hrun rfl h
    rw [if_pos (not_not.mp hhash)]
    exact hrv

theorem attrsOf_encodeAll {least : Nat} (hleast : least ≤ 8) {as : List Attr}
    (hfit : ∀ a ∈ as, a.Fits) (hlast : ∀ a ∈ as.getLast?, least ≤ 4 + a.value.length) :
    attrsOf least (encodeAll as) = as.map fun a => (a.type, a.value.length) := by
  induction as with
  | nil => exact attrsOf_of_none rfl
  | cons a as ih =>
    have hheader := readHeader_encode (hfit a mem_cons_self) (encodeAll as)
    have hroom : least ≤ (encodeAll (a :: as)).length := by
      rw [encodeAll_cons, length_append, Attr.length_encode]
      cases as with
      | nil =>
        have hroom := hlast a rfl
        omega
      | cons b as =>
        rw [encodeAll_cons, length_append, Attr.length_encode]
        omega
    have htail : ∀ b ∈ as.getLast?, least ≤ 4 + b.value.length := by
      cases as with
      | nil => exact fun b hb => by cases hb
      | cons b as => simpa using hlast
    rw [encodeAll_cons, attrsOf_of_header hheader, ← encodeAll_cons, if_pos hroom, drop_left,
      ih (fun b hb => hfit b (mem_cons_of_mem a hb)) htail]
    rfl

def m4NoSettings : List Attr :=
  frontM4 0x10 (Buf.fill 16 0) (Buf.fill 32 0x55) (Buf.fill 32 0x55) ++
    [⟨WscId.authenticator.type, replicate 8 0⟩]

theorem attrsOf_m4NoSettings : attrsOf 4 (encodeAll m4NoSettings) =
    m4NoSettings.map fun a => (a.type, a.value.length) :=
  attrsOf_encodeAll (by decide) (fits_of_length (by decide)) (by decide)

theorem processMessageM4_m4NoSettings : ∃ c',
    processMessageM4 xorCrypt (encodeAll m4NoSettings) staEnrollee =
      some (.devPwdAuthFail, c') := by
  have hlong : (encodeAll m4NoSettings).length ≤ 2048 := by decide
  obtain ⟨m, rest, -, -, hreceive⟩ := exists_receive mandatoryM4 (parseM4 xorCrypt) hlong
    (by decide) noHmac staEnrollee
  have hauth : ∀ (c : WscCtrl) (fieldCheck : WscId → Bool), ∃ s : Parse, s.ctrl = c ∧
      scanAttrs (dispatch (parseM4 xorCrypt)) rest
        [⟨WscId.authenticator.type, replicate 8 0⟩] ⟨c, noHmac, fieldCheck⟩ = some s :=
    fun c fieldCheck => ⟨_, rfl, rfl⟩
  rw [m4NoSettings, scanAttrs_append, scanAttrs_frontM4, bind_some] at hreceive
  obtain ⟨s, hs, hscan⟩ := hauth (((staEnrollee.onReg fun r => { r with lastRx := m }).onReg
    fun r => { r with rHash1 := Buf.fill 32 0x55, rHash2 := Buf.fill 32 0x55 }))
    settingsAndAuthenticator
  rw [hscan] at hreceive
  have hwrong : Buf.fill 32 0x55 ≠ staEnrollee.regData.hashOf xorCrypt staEnrollee.regData.rs1
      staEnrollee.regData.psk1 := by decide +kernel
  have hhash : s.ctrl.regData.rHash1 ≠
      s.ctrl.regData.hashOf xorCrypt s.ctrl.regData.rs1 s.ctrl.regData.psk1 := by
    rw [hs]
    exact hwrong
  refine ⟨s.ctrl, ?_⟩
  rw [processMessageM4, receive_eq, m4NoSettings, hreceive]
  exact if_pos hhash

def m3NoAuthenticator : List Attr :=
  bodyM3 0x10 (Buf.fill 16 0) (Buf.fill 32 0x55) (Buf.fill 32 0x55)

end RalinkSdk.Wps
