import RalinkSdk.Radius.Build

/-!
# Parsing RADIUS messages

`Radius_msg_parse` accepts exactly the messages that are a header and attributes one behind the
other.  So what was built is parsed again, and what was parsed holds attributes that can be read.
-/

namespace RalinkSdk.Radius

open Lib List Option

variable {m : RadiusMsg} {hdr : List Byte} {as bs : List RadiusAttr}

/-! ## Attributes are read back -/

theorem encodeAttrs_ne_nil {a : RadiusAttr} : encodeAttrs (a :: as) ≠ [] := by
  rw [encodeAttrs_cons, RadiusAttr.encode]
  simp

theorem encodeAttrs_injective (ha : ∀ a ∈ as, a.Fits) (hb : ∀ b ∈ bs, b.Fits)
    (h : encodeAttrs as = encodeAttrs bs) : as = bs := by
  induction as generalizing bs with
  | nil =>
    cases bs with
    | nil => rfl
    | cons b bs => exact absurd h.symm encodeAttrs_ne_nil
  | cons a as ih =>
    cases bs with
    | nil => exact absurd h encodeAttrs_ne_nil
    | cons b bs =>
      rw [encodeAttrs_cons, encodeAttrs_cons, RadiusAttr.encode, RadiusAttr.encode] at h
      simp only [cons_append, nil_append, List.cons.injEq] at h
      obtain ⟨htype, hlength, hrest⟩ := h
      -- the length bytes tell where the values end
      have hlen : a.value.length = b.value.length := by
        have htoNat := congrArg BitVec.toNat hlength
        rw [(ha a mem_cons_self).toNat_length, (hb b mem_cons_self).toNat_length] at htoNat
        omega
      obtain ⟨hvalue, htail⟩ := append_inj hrest hlen
      obtain rfl : a = b := by
        cases a
        cases b
        congr
      rw [ih (fun c hc => ha c (mem_cons_of_mem a hc))
        (fun c hc => hb c (mem_cons_of_mem a hc)) htail]

theorem exists_attr (type : Byte) {length : Byte} {rest : List Byte}
    (hmin : radiusAttrHdrLen ≤ length.toNat) (hmax : length.toNat ≤ radiusAttrHdrLen + rest.length) :
    ∃ (a : RadiusAttr) (rest' : List Byte), a.Fits ∧ a.type = type ∧ a.encode.length = length.toNat ∧
      type :: length :: rest = a.encode ++ rest' := by
  have hbyte := length.isLt
  have htake : (rest.take (length.toNat - radiusAttrHdrLen)).length =
      length.toNat - radiusAttrHdrLen := by
    rw [length_take]
    omega
  have hsum : radiusAttrHdrLen + (length.toNat - radiusAttrHdrLen) = length.toNat := by omega
  refine ⟨⟨type, rest.take (length.toNat - radiusAttrHdrLen)⟩,
    rest.drop (length.toNat - radiusAttrHdrLen), ?_, rfl, ?_, ?_⟩
  · show (rest.take (length.toNat - radiusAttrHdrLen)).length ≤ radiusMaxAttrLen
    rw [htake]
    simp only [radiusMaxAttrLen, radiusAttrHdrLen]
    omega
  · rw [RadiusAttr.length_encode, htake, hsum]
  · simp only [RadiusAttr.encode, htake, hsum, BitVec.ofNat_toNat, BitVec.setWidth_eq,
      cons_append, nil_append, take_append_drop]

/-! ## The loop -/

/-- What the loop of `Radius_msg_parse` has come to at offset `pos` of a message. -/
structure Parsing (m : RadiusMsg) (hdr : List Byte) (as : List RadiusAttr) (pos : Nat) : Prop where
  holds : Holds { m with bufUsed := pos } hdr as
  whole : m.bufUsed = m.buf.length

theorem Parsing.addAttr {pos : Nat} {a : RadiusAttr} {rest : List Byte}
    (h : Parsing m hdr as pos) (ha : a.Fits) (hrest : m.buf.drop pos = a.encode ++ rest)
    (grows : Bool) :
    m.radiusMsgAddAttrToArray (m.addr + BitVec.ofNat 32 pos) grows = some (m, false) ∧
        grows = false ∨
      ∃ m', m.radiusMsgAddAttrToArray (m.addr + BitVec.ofNat 32 pos) grows = some (m', true) ∧
        Parsing m' hdr (as ++ [a]) (pos + a.encode.length) ∧ m'.buf = m.buf ∧
        m'.addr = m.addr := by
  have hattrs : m.attrs = attrPtrs m.addr radiusHdrLen as := h.holds.attrs
  have hused : pos = radiusHdrLen + (encodeAttrs as).length := h.holds.used
  have hroom : 0 < m.attrSize ∧ m.attrs.length ≤ m.attrSize := by
    rw [hattrs, length_attrPtrs]
    exact h.holds.room
  rcases addAttrToArray_spec hroom (m.addr + BitVec.ofNat 32 pos) grows with hfull | hadded
  · exact .inl hfull
  obtain ⟨size, hpos, hle, harray⟩ := hadded
  refine .inr ⟨_, harray, ⟨⟨h.holds.hdrLen, ?_, ⟨rest, ?_⟩, ?_, ?_, h.holds.size, hpos, ?_⟩,
    h.whole⟩, rfl, rfl⟩
  · show pos + a.encode.length = _
    rw [hused, encodeAttrs_append, length_append, encodeAttrs_cons, encodeAttrs_nil,
      append_nil, Nat.add_assoc]
  · have hbefore : m.buf.take pos = hdr ++ encodeAttrs as := h.holds.take
    show m.buf = _
    rw [← take_append_drop pos m.buf, hbefore, hrest]
    simp
  · show m.attrs ++ [m.addr + BitVec.ofNat 32 pos] = _
    rw [attrPtrs_append, hattrs, hused]
    rfl
  · intro b hb
    rcases mem_append.mp hb with hb | hb
    · exact h.holds.fits b hb
    · rw [mem_singleton.mp hb]
      exact ha
  · rw [hattrs, length_attrPtrs] at hle
    rw [length_append, length_singleton]
    exact hle

theorem Parsing.header {pos : Nat} {type length : Byte} {rest : List Byte}
    (h : Parsing m hdr as pos) (hrest : m.buf.drop pos = type :: length :: rest) :
    m.header (m.addr + BitVec.ofNat 32 pos) = some (type, length) := by
  have hle : pos ≤ m.buf.length := h.holds.used_le
  have hlt : pos < 2 ^ 32 := by
    have hsize : m.buf.length < 2 ^ 17 := h.holds.size
    omega
  have hfetch : fetch m.buf pos radiusAttrHdrLen = some [type, length] := by
    have hsplit : m.buf = m.buf.take pos ++ ([type, length] ++ rest) := by
      rw [cons_append, cons_append, nil_append, ← hrest, take_append_drop]
    rw [hsplit]
    exact fetch_append (length_take_of_le hle) rfl
  rw [RadiusMsg.header, read_ptr hlt, hfetch]
  rfl

theorem encodeAttrs_eq_cons {type length : Byte} {rest : List Byte} (hfits : ∀ b ∈ bs, b.Fits)
    (h : type :: length :: rest = encodeAttrs bs) :
    ∃ b bs', bs = b :: bs' ∧ length.toNat = b.encode.length := by
  cases bs with
  | nil => cases h
  | cons b bs =>
    rw [encodeAttrs_cons, RadiusAttr.encode] at h
    simp only [cons_append, nil_append, List.cons.injEq] at h
    refine ⟨b, bs, rfl, ?_⟩
    rw [h.2.1, (hfits b mem_cons_self).toNat_length, RadiusAttr.length_encode]

/-- **The loop of `Radius_msg_parse`** ends.  Where it accepts the message, the rest is attributes;
    and it accepts such a message if the array can grow. -/
theorem parseLoop_spec (grows : Nat → Bool) {fuel pos : Nat} (h : Parsing m hdr as pos)
    (hfuel : m.buf.length - pos < fuel) : ∃ r, parseLoop grows fuel m pos = some r ∧
      (∀ p, r = some p → ∃ bs, m.buf.drop pos = encodeAttrs bs ∧ Holds p hdr (as ++ bs) ∧
        p.bufUsed = p.buf.length) ∧
      ((∀ n, grows n = true) → (∃ bs, (∀ b ∈ bs, b.Fits) ∧ m.buf.drop pos = encodeAttrs bs) →
        r.isSome) := by
  induction fuel generalizing m as pos with
  | zero => exact absurd hfuel (Nat.not_lt_zero _)
  | succ fuel ih =>
    have hle : pos ≤ m.buf.length := h.holds.used_le
    have hlen : (m.buf.drop pos).length = m.buf.length - pos := length_drop
    rw [parseLoop, h.whole]
    by_cases hend : pos < m.buf.length
    case neg =>
      -- the end of the message
      have hpos : pos = m.buf.length := by omega
      have hdrop : m.buf.drop pos = encodeAttrs [] := by
        rw [hpos, drop_length, encodeAttrs_nil]
      rw [if_neg hend]
      refine ⟨some m, rfl, ?_, fun _ _ => rfl⟩
      rintro _ ⟨⟩
      refine ⟨[], hdrop, ?_, h.whole⟩
      rw [append_nil]
      have hholds := h.holds
      rwa [hpos, ← h.whole] at hholds
    rw [if_pos hend]
    by_cases hshort : m.buf.length - pos < radiusAttrHdrLen
    · rw [if_pos hshort]
      refine ⟨none, rfl, by simp, ?_⟩
      -- attributes are longer
      rintro - ⟨bs, -, hbs⟩
      have hbsLen := congrArg List.length hbs
      cases bs with
      | nil =>
        rw [hlen, encodeAttrs_nil, length_nil] at hbsLen
        omega
      | cons b bs =>
        rw [hlen, encodeAttrs_cons, length_append, RadiusAttr.length_encode] at hbsLen
        omega
    rw [if_neg hshort]
    obtain ⟨type, length, rest, hrest⟩ : ∃ type length rest,
        m.buf.drop pos = type :: length :: rest := by
      match hdrop : m.buf.drop pos with
      | [] => simp [hdrop, radiusAttrHdrLen] at hlen hshort; omega
      | [_] => simp [hdrop, radiusAttrHdrLen] at hlen hshort; omega
      | type :: length :: rest => exact ⟨type, length, rest, rfl⟩
    have hrestLen : m.buf.length - pos = radiusAttrHdrLen + rest.length := by
      rw [← hlen, hrest]
      simp [radiusAttrHdrLen]
      omega
    simp only [h.header hrest, bind_eq_bind, bind_some]
    by_cases hbad : m.buf.length < pos + length.toNat ∨ length.toNat < radiusAttrHdrLen
    · have hcond : (decide (m.buf.length < pos + length.toNat) ||
          decide (length.toNat < radiusAttrHdrLen)) = true := by simpa using hbad
      rw [if_pos hcond]
      refine ⟨none, rfl, by simp, ?_⟩
      -- the length of an attribute is right
      rintro - ⟨bs, hfits, hbs⟩
      obtain ⟨b, bs', rfl, hlength⟩ := encodeAttrs_eq_cons hfits (hrest ▸ hbs)
      have hbsLen := congrArg List.length hbs
      rw [hlen, encodeAttrs_cons, length_append, ← hlength] at hbsLen
      rw [RadiusAttr.length_encode] at hlength
      omega
    have hcond : ¬ (decide (m.buf.length < pos + length.toNat) ||
        decide (length.toNat < radiusAttrHdrLen)) = true := by simpa using hbad
    rw [if_neg hcond]
    rw [not_or, Nat.not_lt, Nat.not_lt] at hbad
    obtain ⟨a, rest', ha, -, hlength, hsplit⟩ := exists_attr type hbad.2
      (by omega : length.toNat ≤ radiusAttrHdrLen + rest.length)
    have htail : m.buf.drop (pos + a.encode.length) = rest' := by
      rw [← drop_drop, hrest, hsplit, drop_left]
    rcases h.addAttr ha (hrest.trans hsplit) (grows m.attrs.length) with ⟨hfull, hno⟩ | hadded
    · refine ⟨none, by rw [hfull]; rfl, by simp, ?_⟩
      intro hgrows
      rw [hgrows] at hno
      cases hno
    obtain ⟨m', hadd, h', hbuf, -⟩ := hadded
    obtain ⟨r, hloop, haccepted, haccepts⟩ := ih h' (by
      rw [hbuf, hlength]
      simp only [radiusAttrHdrLen] at hbad
      omega)
    rw [hadd]
    refine ⟨r, ?_, ?_, ?_⟩
    · rw [← hlength]
      exact hloop
    · intro p hp
      obtain ⟨bs, hbs, hholds, hwhole⟩ := haccepted p hp
      refine ⟨a :: bs, ?_, by rwa [append_cons], hwhole⟩
      rw [encodeAttrs_cons, ← hbs, hbuf, htail, hrest, hsplit]
    · rintro hgrows ⟨bs, hfits, hbs⟩
      obtain ⟨b, bs', rfl, hblen⟩ := encodeAttrs_eq_cons hfits (hrest ▸ hbs)
      refine haccepts hgrows ⟨bs', fun c hc => hfits c (mem_cons_of_mem b hc), ?_⟩
      rw [hbuf, htail]
      rw [hrest, hsplit, encodeAttrs_cons] at hbs
      exact (append_inj hbs (hlength.trans hblen)).2

/-! ## The function -/

theorem exists_length {data : List Byte} (h : radiusHdrLen ≤ data.length) :
    ∃ high low, fetch data 2 2 = some [high, low] := by
  obtain ⟨field, hfield⟩ := isSome_iff_exists.mp (fetch_isSome_iff.mpr
    (show 2 + 2 ≤ data.length by simp only [radiusHdrLen] at h; omega))
  obtain ⟨high, low, rfl⟩ := length_eq_two.mp (length_fetch hfield)
  exact ⟨high, low, hfield⟩

/-- A header and attributes behind it, as long as the length field says. -/
structure WellFormed (data : List Byte) (hdr : List Byte) (as : List RadiusAttr) : Prop where
  split : ∃ rest, data = hdr ++ (encodeAttrs as ++ rest)
  hdrLen : hdr.length = radiusHdrLen
  fits : ∀ a ∈ as, a.Fits
  lengthSet : LengthSet hdr (radiusHdrLen + (encodeAttrs as).length)
  short : radiusHdrLen + (encodeAttrs as).length < 2 ^ 16

theorem WellFormed.length {data : List Byte} (h : WellFormed data hdr as) {high low : Byte}
    (hfield : fetch data 2 2 = some [high, low]) :
    (high ++ low).toNat = radiusHdrLen + (encodeAttrs as).length := by
  obtain ⟨rest, rfl⟩ := h.split
  obtain ⟨-, hset⟩ := fetch_eq_some_iff.mp h.lengthSet
  obtain ⟨-, hget⟩ := fetch_eq_some_iff.mp hfield
  have hhdr : 2 + 2 ≤ hdr.length := by rw [h.hdrLen]; decide
  rw [drop_append_of_le_length (by omega), take_append_of_le_length
    (by rw [length_drop]; omega), hset, be16, List.cons.injEq, List.cons.injEq] at hget
  obtain ⟨hhigh, hlow, -⟩ := hget
  rw [← hhigh, ← hlow, append_be16, BitVec.toNat_ofNat, Nat.mod_eq_of_lt h.short]

theorem WellFormed.unique {data hdr' : List Byte} (h : WellFormed data hdr as)
    (h' : WellFormed data hdr' bs) : hdr = hdr' ∧ as = bs := by
  obtain ⟨rest, hdata⟩ := h.split
  obtain ⟨rest', hdata'⟩ := h'.split
  obtain ⟨high, low, hfield⟩ := exists_length (show radiusHdrLen ≤ data.length by
    rw [hdata, length_append, h.hdrLen]
    exact Nat.le_add_right _ _)
  -- the length field tells where the attributes end
  have hlen : (encodeAttrs as).length = (encodeAttrs bs).length := by
    have hsame := (h.length hfield).symm.trans (h'.length hfield)
    omega
  obtain ⟨rfl, htail⟩ := append_inj (hdata.symm.trans hdata') (h.hdrLen.trans h'.hdrLen.symm)
  exact ⟨rfl, encodeAttrs_injective h.fits h'.fits (append_inj htail hlen).1⟩

theorem parsing_start {data : List Byte} (addr : Addr) {msgLen : Nat}
    (hmin : radiusHdrLen ≤ msgLen) (hmax : msgLen ≤ data.length) (hlt : msgLen < 2 ^ 17) :
    Parsing ⟨addr, data.take msgLen, msgLen, [], radiusDefaultAttrCount⟩ (data.take radiusHdrLen) []
      radiusHdrLen := by
  have hlen : (data.take msgLen).length = msgLen := length_take_of_le hmax
  refine ⟨⟨length_take_of_le (hmin.trans hmax), rfl, ⟨(data.drop radiusHdrLen).take
    (msgLen - radiusHdrLen), ?_⟩, rfl, by simp, ?_, Nat.succ_pos 15, Nat.zero_le _⟩, hlen.symm⟩
  · show data.take msgLen = _
    rw [encodeAttrs_nil, nil_append, ← take_add, Nat.add_sub_cancel' hmin]
  · show (data.take msgLen).length < _
    rwa [hlen]

/-- **`Radius_msg_parse`** ends.  A message that it returns holds the header and the attributes of
    a well formed datagram; and it returns one for each of them if the allocations succeed. -/
theorem radiusMsgParse_spec (data : List Byte) (addr : Addr) (mem : Mem) (grows : Nat → Bool) :
    ∃ r, radiusMsgParse data addr mem grows = some r ∧
      (∀ p, r = some p → ∃ hdr as, WellFormed data hdr as ∧ Holds p hdr as ∧
        p.bufUsed = p.buf.length) ∧
      ((∀ n, mem n = true) → (∀ n, grows n = true) → (∃ hdr as, WellFormed data hdr as) →
        r.isSome) := by
  rw [radiusMsgParse]
  by_cases htiny : data.length < radiusHdrLen
  · rw [if_pos htiny]
    refine ⟨none, rfl, by simp, ?_⟩
    rintro - - ⟨hdr, as, hwell⟩
    obtain ⟨rest, rfl⟩ := hwell.split
    rw [length_append, hwell.hdrLen] at htiny
    omega
  rw [if_neg htiny]
  rw [Nat.not_lt] at htiny
  obtain ⟨high, low, hfield⟩ := exists_length htiny
  simp only [hfield, bind_eq_bind, bind_some, getElem?_cons_zero, getElem?_cons_succ]
  have hbyte := (high ++ low).isLt
  by_cases hbad : (high ++ low).toNat < radiusHdrLen ∨ data.length < (high ++ low).toNat
  · have hcond : (decide ((high ++ low).toNat < radiusHdrLen) ||
        decide (data.length < (high ++ low).toNat)) = true := by simpa using hbad
    rw [if_pos hcond]
    refine ⟨none, rfl, by simp, ?_⟩
    rintro - - ⟨hdr, as, hwell⟩
    rw [hwell.length hfield] at hbad
    obtain ⟨rest, rfl⟩ := hwell.split
    rw [length_append, length_append, hwell.hdrLen] at hbad
    omega
  have hcond : ¬ (decide ((high ++ low).toNat < radiusHdrLen) ||
      decide (data.length < (high ++ low).toNat)) = true := by simpa using hbad
  rw [if_neg hcond]
  rw [not_or, Nat.not_lt, Nat.not_lt] at hbad
  by_cases hmem : mem 0 = true ∧ mem 1 = true ∧ mem 2 = true
  case neg =>
    refine ⟨none, ?_, by simp, fun hall => absurd ⟨hall 0, hall 1, hall 2⟩ hmem⟩
    rw [radiusMsgInitialize, if_neg (Nat.not_lt.mpr hbad.1)]
    cases h0 : mem 0 with
    | false => rfl
    | true =>
      have hrest : (mem (0 + 1) && mem (1 + 1)) = false := by
        rw [Bool.eq_false_iff]
        intro hboth
        exact hmem ⟨h0, (Bool.and_eq_true_iff.mp hboth).1, (Bool.and_eq_true_iff.mp hboth).2⟩
      simp [hrest]
  -- the datagram is copied
  obtain ⟨h0, h1, h2⟩ := hmem
  have hfetch : fetch data 0 (high ++ low).toNat = some (data.take (high ++ low).toNat) := by
    rw [fetch_eq_some_iff, drop_zero, Nat.zero_add]
    exact ⟨hbad.2, rfl⟩
  have hlen : (data.take (high ++ low).toNat).length = (high ++ low).toNat :=
    length_take_of_le hbad.2
  have hinit : radiusMsgInitialize (high ++ low).toNat addr (fun n => mem (n + 1)) =
      some ⟨addr, replicate (high ++ low).toNat 0, radiusHdrLen, [],
        radiusDefaultAttrCount⟩ := by
    simp [radiusMsgInitialize, Nat.not_lt.mpr hbad.1, h1, h2]
  have hwrite : RadiusMsg.write ⟨addr, replicate (high ++ low).toNat 0, radiusHdrLen, [],
      radiusDefaultAttrCount⟩ addr (data.take (high ++ low).toNat) =
        some ⟨addr, data.take (high ++ low).toNat, radiusHdrLen, [], radiusDefaultAttrCount⟩ := by
    simp [RadiusMsg.write, put, hlen]
  have hfuel : (data.take (high ++ low).toNat).length - radiusHdrLen < (high ++ low).toNat + 1 := by
    omega
  obtain ⟨r, hloop, haccepted, haccepts⟩ :=
    parseLoop_spec grows (parsing_start addr hbad.1 hbad.2 (by omega)) hfuel
  refine ⟨r, ?_, ?_, ?_⟩
  · simp only [h0, hinit, hfetch, bind_some, hwrite]
    exact hloop
  · intro p hp
    obtain ⟨as, has, hholds, hwhole⟩ := haccepted p hp
    -- the header is the first 20 bytes, and the attributes reach to the length that it names
    have hdrLen : (data.take radiusHdrLen).length = radiusHdrLen := length_take_of_le htiny
    have hmsg : data.take (high ++ low).toNat = data.take radiusHdrLen ++ encodeAttrs as := by
      rw [← has]
      show _ = _ ++ (data.take (high ++ low).toNat).drop radiusHdrLen
      have htake := take_append_drop radiusHdrLen (data.take (high ++ low).toNat)
      rwa [take_take, Nat.min_eq_left hbad.1, eq_comm] at htake
    have hmsgLen : (high ++ low).toNat = radiusHdrLen + (encodeAttrs as).length := by
      rw [← hlen, hmsg, length_append, hdrLen]
    refine ⟨data.take radiusHdrLen, as, ⟨⟨data.drop (high ++ low).toNat, ?_⟩, hdrLen, hholds.fits,
      ?_, ?_⟩, hholds, hwhole⟩
    · rw [← append_assoc, ← hmsg, take_append_drop]
    · obtain ⟨-, hget⟩ := fetch_eq_some_iff.mp hfield
      rw [LengthSet, ← hmsgLen, BitVec.ofNat_toNat, BitVec.setWidth_eq, be16_append,
        fetch_eq_some_iff, hdrLen, ← hget]
      refine ⟨by decide, ?_⟩
      rw [drop_take, take_take]
      rfl
    · rw [← hmsgLen]
      exact hbyte
  · rintro - hgrows ⟨hdr, as, hwell⟩
    refine haccepts hgrows ⟨as, hwell.fits, ?_⟩
    show (data.take (high ++ low).toNat).drop radiusHdrLen = encodeAttrs as
    obtain ⟨rest, rfl⟩ := hwell.split
    have htake : (hdr ++ (encodeAttrs as ++ rest)).take (high ++ low).toNat =
        hdr ++ encodeAttrs as := by
      rw [← append_assoc]
      apply take_left'
      rw [length_append, hwell.hdrLen, hwell.length hfield]
    rw [htake]
    exact drop_left' hwell.hdrLen

end RalinkSdk.Radius
