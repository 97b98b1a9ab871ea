import RalinkSdk.Radius.Msg

/-!
# What a RADIUS message holds

`Holds m hdr as` says that the buffer of a message is a header and the attributes `as`, one behind
the other, and that the pointers are those of the attributes, wherever the buffer is.  Adding an
attribute keeps it, whether or not the buffer or the array has to grow.
-/

namespace RalinkSdk.Radius

open Lib List Option Nat
open BitVec (ofNat toNat_ofNat)

/-! ## Attributes as bytes -/

/-- An attribute: its type and its value. -/
structure RadiusAttr where
  type : Byte
  value : List Byte
  deriving DecidableEq

def RadiusAttr.encode (a : RadiusAttr) : List Byte :=
  [a.type, ofNat 8 (radiusAttrHdrLen + a.value.length)] ++ a.value

/-- The bytes of attributes one behind the other. -/
def encodeAttrs (as : List RadiusAttr) : List Byte := as.flatMap RadiusAttr.encode

/-- The value is short enough for the length byte. -/
def RadiusAttr.Fits (a : RadiusAttr) : Prop := a.value.length ≤ radiusMaxAttrLen

@[simp] theorem RadiusAttr.length_encode (a : RadiusAttr) :
    a.encode.length = radiusAttrHdrLen + a.value.length := by
  simp [RadiusAttr.encode, radiusAttrHdrLen]
  omega

@[simp] theorem encodeAttrs_nil : encodeAttrs [] = [] := rfl

@[simp] theorem encodeAttrs_cons (a : RadiusAttr) (as : List RadiusAttr) :
    encodeAttrs (a :: as) = a.encode ++ encodeAttrs as := rfl

@[simp] theorem encodeAttrs_append (as bs : List RadiusAttr) :
    encodeAttrs (as ++ bs) = encodeAttrs as ++ encodeAttrs bs := flatMap_append

variable {a : RadiusAttr}

theorem RadiusAttr.Fits.toNat_length (h : a.Fits) :
    (ofNat 8 (radiusAttrHdrLen + a.value.length)).toNat =
      radiusAttrHdrLen + a.value.length := by
  rw [toNat_ofNat]
  apply mod_eq_of_lt
  simp only [RadiusAttr.Fits, radiusMaxAttrLen, radiusAttrHdrLen] at h ⊢
  omega

/-- Pointers to attributes that begin at offset `o` of a buffer. -/
def attrPtrs (addr : Addr) : Nat → List RadiusAttr → List Addr
  | _, [] => []
  | o, a :: as => (addr + ofNat 32 o) :: attrPtrs addr (o + a.encode.length) as

@[simp] theorem length_attrPtrs (addr : Addr) (o : Nat) (as : List RadiusAttr) :
    (attrPtrs addr o as).length = as.length := by
  induction as generalizing o with
  | nil => rfl
  | cons a as ih => rw [attrPtrs, length_cons, length_cons, ih]

theorem attrPtrs_append (addr : Addr) (o : Nat) (as bs : List RadiusAttr) :
    attrPtrs addr o (as ++ bs) =
      attrPtrs addr o as ++ attrPtrs addr (o + (encodeAttrs as).length) bs := by
  induction as generalizing o with
  | nil => rfl
  | cons a as ih =>
    rw [cons_append, attrPtrs, attrPtrs, ih, encodeAttrs_cons, length_append,
      Nat.add_assoc, cons_append]

theorem map_attrPtrs (addr nbuf : Addr) (o : Nat) (as : List RadiusAttr) :
    (attrPtrs addr o as).map (· + (nbuf - addr)) = attrPtrs nbuf o as := by
  induction as generalizing o with
  | nil => rfl
  | cons a as ih =>
    have hptr : addr + ofNat 32 o + (nbuf - addr) = nbuf + ofNat 32 o := by
      rw [add_right_comm, add_sub_cancel]
    rw [attrPtrs, attrPtrs, map_cons, hptr, ih]

/-! ## Messages -/

/-- **What a message holds**: a header and attributes, and a pointer to each of these. -/
structure Holds (m : RadiusMsg) (hdr : List Byte) (as : List RadiusAttr) : Prop where
  hdrLen : hdr.length = radiusHdrLen
  used : m.bufUsed = radiusHdrLen + (encodeAttrs as).length
  bytes : ∃ rest, m.buf = hdr ++ (encodeAttrs as ++ rest)
  attrs : m.attrs = attrPtrs m.addr radiusHdrLen as
  fits : ∀ a ∈ as, a.Fits
  size : m.buf.length < 2 ^ 17
  room : 0 < m.attrSize ∧ as.length ≤ m.attrSize

variable {m : RadiusMsg} {hdr : List Byte} {as : List RadiusAttr}

theorem toNat_ptr (addr : Addr) {o : Nat} (h : o < 2 ^ 32) :
    (addr + ofNat 32 o - addr).toNat = o := by
  rw [BitVec.add_comm, BitVec.add_sub_cancel, toNat_ofNat, mod_eq_of_lt h]

theorem ptr_add (addr : Addr) (o k : Nat) :
    addr + ofNat 32 o + ofNat 32 k = addr + ofNat 32 (o + k) := by
  rw [BitVec.add_assoc, BitVec.ofNat_add]

theorem read_ptr {o n : Nat} (h : o < 2 ^ 32) :
    m.read (m.addr + ofNat 32 o) n = fetch m.buf o n := by
  rw [RadiusMsg.read, toNat_ptr m.addr h]

theorem write_ptr {o : Nat} (h : o < 2 ^ 32) (src : List Byte) :
    m.write (m.addr + ofNat 32 o) src =
      (put m.buf o src).map fun buf => { m with buf := buf } := by
  rw [RadiusMsg.write, toNat_ptr m.addr h]

theorem Holds.used_le (h : Holds m hdr as) : m.bufUsed ≤ m.buf.length := by
  obtain ⟨rest, hbuf⟩ := h.bytes
  rw [hbuf, h.used, length_append, length_append, h.hdrLen]
  omega

theorem Holds.take (h : Holds m hdr as) : m.buf.take m.bufUsed = hdr ++ encodeAttrs as := by
  obtain ⟨rest, hbuf⟩ := h.bytes
  rw [hbuf, ← append_assoc]
  apply take_left'
  rw [length_append, h.hdrLen, h.used]

variable {pre post : List RadiusAttr}

theorem Holds.header (h : Holds m hdr (pre ++ a :: post)) :
    m.header (m.addr + ofNat 32 (radiusHdrLen + (encodeAttrs pre).length)) =
      some (a.type, ofNat 8 (radiusAttrHdrLen + a.value.length)) := by
  obtain ⟨rest, hbuf⟩ := h.bytes
  have hsize := h.size
  have hlen : radiusHdrLen + (encodeAttrs pre).length < 2 ^ 32 := by
    rw [hbuf] at hsize
    simp only [length_append, encodeAttrs_append, h.hdrLen] at hsize
    omega
  have hfetch : fetch m.buf (radiusHdrLen + (encodeAttrs pre).length) radiusAttrHdrLen =
      some [a.type, ofNat 8 (radiusAttrHdrLen + a.value.length)] := by
    have hsplit : m.buf = (hdr ++ encodeAttrs pre) ++
        ([a.type, ofNat 8 (radiusAttrHdrLen + a.value.length)] ++
          (a.value ++ (encodeAttrs post ++ rest))) := by
      rw [hbuf]
      simp [RadiusAttr.encode, encodeAttrs_append]
    rw [hsplit]
    exact fetch_append (by rw [length_append, h.hdrLen]) rfl
  rw [RadiusMsg.header, read_ptr hlen, hfetch]
  rfl

theorem Holds.value (h : Holds m hdr (pre ++ a :: post)) :
    m.read (m.addr + ofNat 32 (radiusHdrLen + (encodeAttrs pre).length) +
      ofNat 32 radiusAttrHdrLen) a.value.length = some a.value := by
  obtain ⟨rest, hbuf⟩ := h.bytes
  have hsize := h.size
  have hlen : radiusHdrLen + (encodeAttrs pre).length + radiusAttrHdrLen < 2 ^ 32 := by
    rw [hbuf] at hsize
    simp only [length_append, encodeAttrs_append, encodeAttrs_cons, h.hdrLen,
      RadiusAttr.length_encode] at hsize
    omega
  have hsplit : m.buf = (hdr ++ encodeAttrs pre ++
      [a.type, ofNat 8 (radiusAttrHdrLen + a.value.length)]) ++
        (a.value ++ (encodeAttrs post ++ rest)) := by
    rw [hbuf]
    simp [RadiusAttr.encode, encodeAttrs_append]
  rw [ptr_add, read_ptr hlen, hsplit]
  apply fetch_append _ rfl
  simp only [length_append, h.hdrLen, radiusAttrHdrLen, length_cons, length_nil]

/-! ## Adding an attribute -/

theorem doubleUntil_spec {fuel nlen needed : Nat} (hpos : 0 < nlen)
    (hfuel : needed ≤ nlen * 2 ^ fuel) (hlt : nlen < 2 * needed) :
    ∃ n, doubleUntil (fuel + 1) nlen needed = some n ∧ nlen ≤ n ∧ needed ≤ n ∧ n < 2 * needed := by
  induction fuel generalizing nlen with
  | zero =>
    have hle : ¬ nlen < needed := by omega
    exact ⟨nlen, if_neg hle, Nat.le_refl nlen, by omega, hlt⟩
  | succ fuel ih =>
    rw [doubleUntil]
    split
    · next hless =>
      rw [Nat.pow_succ', ← Nat.mul_assoc] at hfuel
      obtain ⟨n, hn, hge, hneeded, hn2⟩ := ih (by omega) hfuel (by omega)
      exact ⟨n, hn, by omega, hneeded, hn2⟩
    · exact ⟨nlen, rfl, Nat.le_refl nlen, by omega, hlt⟩

theorem Holds.moveTo (h : Holds m hdr as) (nbuf : Addr) {nlen : Nat} (hle : m.buf.length ≤ nlen)
    (hlt : nlen < 2 ^ 17) :
    Holds (m.moveTo nbuf nlen) hdr as ∧ (m.moveTo nbuf nlen).buf.length = nlen := by
  have hlen : (m.moveTo nbuf nlen).buf.length = nlen := by
    simp [RadiusMsg.moveTo]
    omega
  refine ⟨⟨h.hdrLen, h.used, ?_, ?_, h.fits, by omega, h.room⟩, hlen⟩
  · obtain ⟨rest, hbuf⟩ := h.bytes
    refine ⟨rest ++ replicate (nlen - m.buf.length) 0, ?_⟩
    simp [RadiusMsg.moveTo, hbuf]
  · simp only [RadiusMsg.moveTo, h.attrs]
    exact map_attrPtrs m.addr nbuf radiusHdrLen as

theorem addAttrToArray_spec (hroom : 0 < m.attrSize ∧ m.attrs.length ≤ m.attrSize) (attr : Addr)
    (grows : Bool) : m.radiusMsgAddAttrToArray attr grows = some (m, false) ∧ grows = false ∨
      ∃ size, 0 < size ∧ m.attrs.length + 1 ≤ size ∧
        m.radiusMsgAddAttrToArray attr grows =
          some ({ m with attrs := m.attrs ++ [attr], attrSize := size }, true) := by
  rw [RadiusMsg.radiusMsgAddAttrToArray]
  split
  · cases grows with
    | false => exact .inl ⟨rfl, rfl⟩
    | true =>
      have hfit : m.attrs.length < m.attrSize * 2 := by omega
      exact .inr ⟨m.attrSize * 2, by omega, by omega, by simp [hfit]⟩
  · exact .inr ⟨m.attrSize, hroom.1, by omega, rfl⟩

def RadiusMsg.Alloc.Succeeds (alloc : RadiusMsg.Alloc) : Prop :=
  alloc.buf.isSome ∧ alloc.grows = true

theorem Holds.storeAttr (h : Holds m hdr as) (ha : a.Fits)
    (hroom : m.bufUsed + a.encode.length ≤ m.buf.length) : ∃ m', m.storeAttr a.type a.value true =
        some (m', some (m'.addr + ofNat 32 m.bufUsed)) ∧
      Holds m' hdr (as ++ [a]) := by
  obtain ⟨rest, hbuf⟩ := h.bytes
  have hsize := h.size
  rw [RadiusAttr.length_encode] at hroom
  -- the free bytes that the attribute takes
  have hrest : radiusAttrHdrLen + a.value.length ≤ rest.length := by
    rw [hbuf, h.used] at hroom
    simp only [length_append, h.hdrLen] at hroom
    omega
  obtain ⟨old, old', rest', rfl, hold, hold'⟩ : ∃ old old' rest', rest = old ++ (old' ++ rest') ∧
      old.length = radiusAttrHdrLen ∧ old'.length = a.value.length := by
    refine ⟨rest.take radiusAttrHdrLen, (rest.drop radiusAttrHdrLen).take a.value.length,
      (rest.drop radiusAttrHdrLen).drop a.value.length, ?_, ?_, ?_⟩
    · rw [take_append_drop, take_append_drop]
    · rw [length_take]
      omega
    · rw [length_take, length_drop]
      omega
  have hused : (hdr ++ encodeAttrs as).length = m.bufUsed := by
    rw [length_append, h.hdrLen, h.used]
  let head := [a.type, ofNat 8 (radiusAttrHdrLen + a.value.length)]
  have hhead : put m.buf m.bufUsed head =
      some (hdr ++ encodeAttrs as ++ (head ++ (old' ++ rest'))) := by
    rw [hbuf, ← append_assoc hdr]
    exact put_append hused hold
  have hvalue : put (hdr ++ encodeAttrs as ++ (head ++ (old' ++ rest')))
      (m.bufUsed + radiusAttrHdrLen) a.value =
        some (hdr ++ encodeAttrs as ++ head ++ (a.value ++ rest')) := by
    rw [← append_assoc _ head]
    exact put_append (by rw [length_append, hused]; rfl) hold'
  obtain ⟨size, hpos, hle, harray⟩ := (addAttrToArray_spec (m := { m with
    buf := hdr ++ encodeAttrs as ++ head ++ (a.value ++ rest')
    bufUsed := m.bufUsed + radiusAttrHdrLen + a.value.length })
    (by rw [h.attrs, length_attrPtrs]; exact h.room) (m.addr + ofNat 32 m.bufUsed)
    true).resolve_left (by simp)
  refine ⟨{ m with
    buf := hdr ++ encodeAttrs as ++ head ++ (a.value ++ rest')
    bufUsed := m.bufUsed + radiusAttrHdrLen + a.value.length
    attrs := m.attrs ++ [m.addr + ofNat 32 m.bufUsed]
    attrSize := size }, ?_, ?_⟩
  · have hwriteHead : m.write (m.addr + ofNat 32 m.bufUsed) head =
        some { m with buf := hdr ++ encodeAttrs as ++ (head ++ (old' ++ rest')) } := by
      rw [write_ptr (by omega), hhead, map_some]
    have hwriteValue : { m with buf := hdr ++ encodeAttrs as ++ (head ++ (old' ++ rest')) }.write
        (m.addr + ofNat 32 m.bufUsed + ofNat 32 radiusAttrHdrLen) a.value =
          some { m with buf := hdr ++ encodeAttrs as ++ head ++ (a.value ++ rest') } := by
      rw [ptr_add]
      refine (write_ptr ?_ _).trans ?_
      · omega
      · rw [hvalue, map_some]
    simp only [RadiusMsg.storeAttr, bind_eq_bind]
    rw [hwriteHead, bind_some, hwriteValue, bind_some]
    simp only [harray, bind_some, if_true]
  · have hencode : encodeAttrs (as ++ [a]) = encodeAttrs as ++ (head ++ a.value) := by
      rw [encodeAttrs_append, encodeAttrs_cons, encodeAttrs_nil, append_nil]
      rfl
    refine ⟨h.hdrLen, ?_, ⟨rest', ?_⟩, ?_, ?_, ?_, hpos, ?_⟩
    · rw [encodeAttrs_append, length_append, encodeAttrs_cons, length_append,
        RadiusAttr.length_encode, encodeAttrs_nil, length_nil]
      show m.bufUsed + radiusAttrHdrLen + a.value.length = _
      rw [h.used]
      omega
    · show hdr ++ encodeAttrs as ++ head ++ (a.value ++ rest') = _
      rw [hencode]
      simp only [append_assoc]
    · show m.attrs ++ [m.addr + ofNat 32 m.bufUsed] = _
      rw [attrPtrs_append, h.attrs, h.used]
      rfl
    · intro b hb
      rcases mem_append.mp hb with hb | hb
      · exact h.fits b hb
      · rw [mem_singleton.mp hb]
        exact ha
    · -- what is stored takes the place of as many bytes
      rw [hbuf] at hsize
      simp only [length_append] at hsize ⊢
      have hheadLen : head.length = radiusAttrHdrLen := rfl
      omega
    · rw [h.attrs, length_attrPtrs] at hle
      rw [length_append, length_singleton]
      exact hle

/-- **An attribute is added** at the end, whatever the allocations do with the buffer. -/
theorem Holds.addAttr (h : Holds m hdr as) (ha : a.Fits)
    {alloc : RadiusMsg.Alloc} (halloc : alloc.Succeeds)
    (htotal : radiusHdrLen + (encodeAttrs (as ++ [a])).length < 2 ^ 16) :
    ∃ m', m.radiusMsgAddAttr a.type a.value alloc =
        some (m', some (m'.addr + ofNat 32 m.bufUsed)) ∧
      Holds m' hdr (as ++ [a]) := by
  obtain ⟨⟨nbuf, hnbuf⟩, hgrows⟩ := halloc.imp_left isSome_iff_exists.mp
  rw [encodeAttrs_append, length_append, encodeAttrs_cons, encodeAttrs_nil, append_nil,
    ← Nat.add_assoc, ← h.used] at htotal
  have hneeded : m.bufUsed + radiusAttrHdrLen + a.value.length = m.bufUsed + a.encode.length := by
    rw [RadiusAttr.length_encode, Nat.add_assoc]
  rw [RadiusMsg.radiusMsgAddAttr, if_neg (Nat.not_lt.mpr ha), hnbuf, hgrows]
  simp only [hneeded]
  split
  · next hless =>
    have hused := h.used_le
    have hpos : 0 < m.buf.length := by
      have hmsg := h.used
      simp only [radiusHdrLen] at hmsg
      omega
    have hfuel : m.bufUsed + a.encode.length ≤ m.buf.length * 2 ^ 31 := by
      have hmul := Nat.mul_le_mul_right (2 ^ 31) (succ_le_of_lt hpos)
      omega
    obtain ⟨nlen, hnlen, hle, hroom, hlt⟩ := doubleUntil_spec hpos hfuel (by omega)
    obtain ⟨hmoved, hlen⟩ := h.moveTo nbuf hle (by omega)
    rw [hnlen]
    exact hmoved.storeAttr ha (by rw [hlen]; exact hroom)
  · next hroom => exact h.storeAttr ha (Nat.le_of_not_lt hroom)

/-! ## Adding an EAP packet -/

def eapPieces (data : List Byte) : List (List Byte) :=
  if data = [] then []
  else data.take radiusMaxAttrLen :: eapPieces (data.drop radiusMaxAttrLen)
termination_by data.length
decreasing_by
  next hdata =>
  rw [length_drop]
  exact sub_lt (length_pos_of_ne_nil hdata) (by decide)

theorem flatten_eapPieces (data : List Byte) : (eapPieces data).flatten = data := by
  induction data using eapPieces.induct with
  | case1 => simp [eapPieces]
  | case2 data hdata ih =>
    rw [eapPieces, if_neg hdata, flatten_cons, ih, take_append_drop]

def eapAttrs (data : List Byte) : List RadiusAttr :=
  (eapPieces data).map fun piece => ⟨radiusAttrEapMessage, piece⟩

theorem eapAttrs_nil : eapAttrs [] = [] := by
  rw [eapAttrs, eapPieces, if_pos rfl, map_nil]

theorem eapAttrs_of_ne {data : List Byte} (h : data ≠ []) :
    eapAttrs data = ⟨radiusAttrEapMessage, data.take radiusMaxAttrLen⟩ ::
      eapAttrs (data.drop radiusMaxAttrLen) := by
  rw [eapAttrs, eapPieces, if_neg h, map_cons, ← eapAttrs]

/-- **An EAP packet is added** in pieces. -/
theorem Holds.addEap (h : Holds m hdr as) {data : List Byte} {fuel : Nat}
    (hfuel : data.length < fuel) {allocs : Nat → RadiusMsg.Alloc}
    (halloc : ∀ n, (allocs n).Succeeds)
    (htotal : radiusHdrLen + (encodeAttrs (as ++ eapAttrs data)).length < 2 ^ 16) :
    ∃ m', RadiusMsg.radiusMsgAddEap fuel m data allocs = some (m', true) ∧
      Holds m' hdr (as ++ eapAttrs data) := by
  obtain ⟨fuel, rfl⟩ := exists_eq_add_one_of_ne_zero (Nat.ne_zero_of_lt hfuel)
  induction fuel generalizing m as data allocs with
  | zero =>
    obtain rfl := length_eq_zero_iff.mp (Nat.lt_one_iff.mp hfuel)
    refine ⟨m, rfl, ?_⟩
    rw [eapAttrs_nil, append_nil]
    exact h
  | succ fuel ih =>
    rw [RadiusMsg.radiusMsgAddEap]
    by_cases hdata : data = []
    · subst hdata
      refine ⟨m, rfl, ?_⟩
      rw [eapAttrs_nil, append_nil]
      exact h
    have hpos := length_pos_of_ne_nil hdata
    rw [eapAttrs_of_ne hdata, append_cons] at htotal ⊢
    -- one piece
    have hpiece : radiusHdrLen + (encodeAttrs
        (as ++ [⟨radiusAttrEapMessage, data.take radiusMaxAttrLen⟩])).length < 2 ^ 16 := by
      rw [encodeAttrs_append, length_append] at htotal
      omega
    obtain ⟨m', hadd, h'⟩ := h.addAttr (a := ⟨radiusAttrEapMessage, data.take radiusMaxAttrLen⟩)
      (length_take_le _ _) (halloc 0) hpiece
    have hlen : (if radiusMaxAttrLen < data.length then radiusMaxAttrLen else data.length) =
        min radiusMaxAttrLen data.length := by
      split <;> omega
    have htake : data.take (min radiusMaxAttrLen data.length) = data.take radiusMaxAttrLen :=
      take_eq_take_min.symm
    have hdrop : data.drop (min radiusMaxAttrLen data.length) = data.drop radiusMaxAttrLen :=
      drop_eq_drop_min.symm
    -- and the others
    have hless : (data.drop radiusMaxAttrLen).length < fuel + 1 := by
      rw [length_drop]
      simp only [radiusMaxAttrLen, radiusAttrHdrLen]
      omega
    obtain ⟨m'', hrest, h''⟩ := ih h' (fun n => halloc (n + 1)) htotal hless
    refine ⟨m'', ?_, h''⟩
    rw [if_pos hpos, hlen]
    simp only [htake, hdrop, hadd, bind_eq_bind, bind_some]
    exact hrest

/-! ## The header and the values -/

theorem Holds.writeHdr (h : Holds m hdr as) {o : Nat} {src : List Byte}
    (hroom : o + src.length ≤ radiusHdrLen) :
    ∃ m', m.write (m.addr + ofNat 32 o) src = some m' ∧
      Holds m' (hdr.take o ++ (src ++ hdr.drop (o + src.length))) as ∧
      m'.addr = m.addr ∧ m'.attrs = m.attrs := by
  obtain ⟨rest, hbuf⟩ := h.bytes
  have hlt : o < 2 ^ 32 := by
    simp only [radiusHdrLen] at hroom
    omega
  have hhdr := h.hdrLen
  have hsplit : m.buf = hdr.take o ++ ((hdr.drop o).take src.length ++
      (hdr.drop (o + src.length) ++ (encodeAttrs as ++ rest))) := by
    rw [hbuf, ← drop_drop, ← append_assoc ((hdr.drop o).take src.length),
      take_append_drop, ← append_assoc (hdr.take o), take_append_drop]
  have hput : put m.buf o src = some (hdr.take o ++ (src ++ (hdr.drop (o + src.length) ++
      (encodeAttrs as ++ rest)))) := by
    rw [hsplit]
    apply put_append
    · rw [length_take]
      omega
    · rw [length_take, length_drop]
      omega
  refine ⟨{ m with buf := hdr.take o ++ (src ++ (hdr.drop (o + src.length) ++
    (encodeAttrs as ++ rest))) }, by rw [write_ptr hlt, hput]; rfl,
    ⟨?_, h.used, ⟨rest, ?_⟩, h.attrs, h.fits, ?_, h.room⟩, rfl, rfl⟩
  · simp only [length_append, length_take, length_drop]
    omega
  · simp only [append_assoc]
  · show (_ : List Byte).length < _
    rw [length_put hput]
    exact h.size

theorem Holds.writeValue
    (h : Holds m hdr (pre ++ a :: post)) {src : List Byte} (hlen : src.length = a.value.length) :
    ∃ m', m.write (m.addr + ofNat 32 (radiusHdrLen + (encodeAttrs pre).length) +
        ofNat 32 radiusAttrHdrLen) src = some m' ∧
      Holds m' hdr (pre ++ ⟨a.type, src⟩ :: post) ∧ m'.addr = m.addr ∧ m'.attrs = m.attrs := by
  obtain ⟨rest, hbuf⟩ := h.bytes
  have hsize := h.size
  let head := [a.type, ofNat 8 (radiusAttrHdrLen + a.value.length)]
  have hlt : radiusHdrLen + (encodeAttrs pre).length + radiusAttrHdrLen < 2 ^ 32 := by
    rw [hbuf] at hsize
    simp only [length_append, encodeAttrs_append, encodeAttrs_cons, h.hdrLen,
      RadiusAttr.length_encode] at hsize
    omega
  have hsplit : m.buf = (hdr ++ encodeAttrs pre ++ head) ++
      (a.value ++ (encodeAttrs post ++ rest)) := by
    rw [hbuf]
    simp [RadiusAttr.encode, encodeAttrs_append, head]
  have hput : put m.buf (radiusHdrLen + (encodeAttrs pre).length + radiusAttrHdrLen) src =
      some ((hdr ++ encodeAttrs pre ++ head) ++ (src ++ (encodeAttrs post ++ rest))) := by
    rw [hsplit]
    apply put_append _ hlen.symm
    simp only [length_append, h.hdrLen, radiusAttrHdrLen, head, length_cons, length_nil]
  have hencode : (encodeAttrs (pre ++ ⟨a.type, src⟩ :: post)).length =
      (encodeAttrs (pre ++ a :: post)).length := by
    simp only [encodeAttrs_append, encodeAttrs_cons, length_append, RadiusAttr.length_encode, hlen]
  refine ⟨{ m with buf := (hdr ++ encodeAttrs pre ++ head) ++ (src ++ (encodeAttrs post ++ rest)) },
    by rw [ptr_add, write_ptr hlt, hput]; rfl, ⟨h.hdrLen, ?_, ⟨rest, ?_⟩, ?_, ?_, ?_, ?_⟩, rfl, rfl⟩
  · rw [hencode]
    exact h.used
  · simp [RadiusAttr.encode, encodeAttrs_append, head, hlen]
  · have hptrs := h.attrs
    rw [attrPtrs_append] at hptrs ⊢
    rw [attrPtrs, RadiusAttr.length_encode] at hptrs ⊢
    rw [hlen]
    exact hptrs
  · intro b hb
    rcases mem_append.mp hb with hb | hb
    · exact h.fits b (mem_append_left _ hb)
    rcases mem_cons.mp hb with rfl | hb
    · have ha := h.fits a (by simp)
      simp only [RadiusAttr.Fits] at ha ⊢
      omega
    · exact h.fits b (by simp [hb])
  · show (_ : List Byte).length < _
    rw [length_put hput]
    exact h.size
  · simpa using h.room

/-! ## Finishing -/

/-- The length field of the header is that of the message. -/
def LengthSet (hdr : List Byte) (n : Nat) : Prop := fetch hdr 2 2 = some (be16 (ofNat 16 n))

theorem Holds.setLength (h : Holds m hdr as) :
    ∃ m' hdr', m.setLength = some m' ∧ Holds m' hdr' as ∧ LengthSet hdr' m.bufUsed ∧
      m'.addr = m.addr := by
  have hsrc : (be16 (ofNat 16 m.bufUsed)).length = 2 := rfl
  have hroom : 2 + (be16 (ofNat 16 m.bufUsed)).length ≤ radiusHdrLen := by
    rw [hsrc]
    decide
  obtain ⟨m', hwrite, h', haddr, -⟩ := h.writeHdr hroom
  refine ⟨m', _, hwrite, h', ?_, haddr⟩
  apply fetch_append
  · rw [length_take, h.hdrLen]
    decide
  · rfl

/-- **The message is finished**: the Message-Authenticator is the digest of the message with zeros
    in its place. -/
theorem Holds.finish (h : Holds m hdr as) (hmacMd5 : List Byte → List Byte → Buf md5MacLen)
    (secret : List Byte) {alloc : RadiusMsg.Alloc} (halloc : alloc.Succeeds)
    (htotal : radiusHdrLen + (encodeAttrs as).length + (radiusAttrHdrLen + md5MacLen) < 2 ^ 16) :
    ∃ m' hdr' mac, m.radiusMsgFinish hmacMd5 (some secret) alloc = some m' ∧
      Holds m' hdr' (as ++ [⟨radiusAttrMessageAuthenticator, mac⟩]) ∧
      LengthSet hdr' m'.bufUsed ∧
      mac = (hmacMd5 secret (hdr' ++ encodeAttrs
        (as ++ [⟨radiusAttrMessageAuthenticator, replicate md5MacLen 0⟩]))).bytes := by
  let zero : RadiusAttr := ⟨radiusAttrMessageAuthenticator, replicate md5MacLen 0⟩
  have hzero : (encodeAttrs (as ++ [zero])).length =
      (encodeAttrs as).length + (radiusAttrHdrLen + md5MacLen) := by
    simp [encodeAttrs_append, zero]
  obtain ⟨m₁, hadd, h₁⟩ := h.addAttr (a := zero) (by unfold RadiusAttr.Fits; decide) halloc
    (by omega)
  obtain ⟨m₂, hdr', hset, h₂, hlength, haddr⟩ := h₁.setLength
  have hread : m₂.read m₂.addr m₂.bufUsed = some (hdr' ++ encodeAttrs (as ++ [zero])) := by
    have hptr : m₂.addr = m₂.addr + ofNat 32 0 := (BitVec.add_zero _).symm
    rw [hptr, read_ptr (by decide), fetch_eq_some_iff]
    exact ⟨by simpa using h₂.used_le, by rw [drop_zero]; exact h₂.take⟩
  let mac := hmacMd5 secret (hdr' ++ encodeAttrs (as ++ [zero]))
  have hsize : mac.bytes.length = zero.value.length := mac.size.trans length_replicate.symm
  obtain ⟨m', hwrite, h', -, -⟩ := h₂.writeValue hsize
  have hused : m'.bufUsed = m₁.bufUsed := by
    rw [h'.used, h₁.used]
    simp [encodeAttrs_append, zero, mac.size]
  refine ⟨m', hdr', mac.bytes, ?_, h', hused ▸ hlength, rfl⟩
  have hsum : radiusHdrLen + (encodeAttrs as).length = m.bufUsed := h.used.symm
  rw [hsum, haddr] at hwrite
  simp only [RadiusMsg.radiusMsgFinish, bind_eq_bind]
  rw [hadd, bind_some]
  simp only [hset, bind_some, hread]
  exact hwrite

end RalinkSdk.Radius
