import RalinkSdk.Radius.Parse

/-!
# Built messages are parsed again

Whatever attributes and EAP packets are added to a new message, and wherever its buffer goes when
it grows, the parser finds in the finished message what was added.
-/

namespace RalinkSdk.Radius

open Lib List Option

variable {m : RadiusMsg} {hdr : List Byte} {as pre post : List RadiusAttr}

/-! ## Reading attributes -/

def RadiusMsg.attribute (m : RadiusMsg) (p : Addr) : Option RadiusAttr := do
  let (type, length) ← m.header p
  let len ← RadiusMsg.valueLength length
  let value ← m.read (p + BitVec.ofNat 32 radiusAttrHdrLen) len
  some ⟨type, value⟩

/-- The attributes of a message, as its pointers tell. -/
def RadiusMsg.attributes (m : RadiusMsg) : Option (List RadiusAttr) := m.attrs.mapM m.attribute

theorem valueLength_of_fits {a : RadiusAttr} (h : a.Fits) :
    RadiusMsg.valueLength (BitVec.ofNat 8 (radiusAttrHdrLen + a.value.length)) =
      some a.value.length := by
  rw [RadiusMsg.valueLength, h.toNat_length, if_pos (Nat.le_add_right _ _), Nat.add_sub_cancel_left]

theorem Holds.attribute {a : RadiusAttr} (h : Holds m hdr (pre ++ a :: post)) :
    m.attribute (m.addr + BitVec.ofNat 32 (radiusHdrLen + (encodeAttrs pre).length)) =
      some a := by
  have ha := h.fits a (by simp)
  simp only [RadiusMsg.attribute, h.header, bind_eq_bind, bind_some,
    valueLength_of_fits ha, h.value]

theorem attrPtrs_behind (addr : Addr) (pre : List RadiusAttr) (a : RadiusAttr)
    (post : List RadiusAttr) : attrPtrs addr (radiusHdrLen + (encodeAttrs pre).length) (a :: post) =
      (addr + BitVec.ofNat 32 (radiusHdrLen + (encodeAttrs pre).length)) ::
        attrPtrs addr (radiusHdrLen + (encodeAttrs (pre ++ [a])).length) post := by
  rw [attrPtrs, encodeAttrs_append, length_append, encodeAttrs_cons, encodeAttrs_nil,
    append_nil, Nat.add_assoc]

theorem Holds.attributes (h : Holds m hdr as) : m.attributes = some as := by
  have hwalk : ∀ pre post, Holds m hdr (pre ++ post) →
      (attrPtrs m.addr (radiusHdrLen + (encodeAttrs pre).length) post).mapM m.attribute =
        some post := by
    intro pre post h
    induction post generalizing pre with
    | nil => rfl
    | cons a post ih =>
      rw [attrPtrs_behind, mapM_cons, h.attribute]
      rw [append_cons] at h
      simp only [ih (pre ++ [a]) h, bind_eq_bind, bind_some, pure]
  rw [RadiusMsg.attributes, h.attrs]
  exact hwalk [] as h

/-! ## EAP packets -/

/-- What the EAP-Message attributes make up. -/
def eapData (as : List RadiusAttr) : List Byte :=
  as.flatMap fun a => if a.type = radiusAttrEapMessage then a.value else []

theorem eapData_cons_of_eq {a : RadiusAttr} (h : a.type = radiusAttrEapMessage) :
    eapData (a :: as) = a.value ++ eapData as := by
  rw [eapData, flatMap_cons, if_pos h, eapData]

theorem eapData_cons_of_ne {a : RadiusAttr} (h : a.type ≠ radiusAttrEapMessage) :
    eapData (a :: as) = eapData as := by
  rw [eapData, flatMap_cons, if_neg h, nil_append, eapData]

theorem Holds.eapLength (pre : List RadiusAttr) (h : Holds m hdr (pre ++ post)) (len : Nat) :
    m.eapLength (attrPtrs m.addr (radiusHdrLen + (encodeAttrs pre).length) post) len =
      some (len + (eapData post).length) := by
  induction post generalizing pre len with
  | nil => rfl
  | cons a post ih =>
    have ha := h.fits a (by simp)
    rw [attrPtrs_behind, RadiusMsg.eapLength, h.header]
    rw [append_cons] at h
    simp only [bind_eq_bind, bind_some]
    split
    · next htype =>
      rw [valueLength_of_fits ha, bind_some, ih _ h, eapData_cons_of_eq htype,
        length_append, Nat.add_assoc]
    · next htype => rw [ih _ h, eapData_cons_of_ne htype]

theorem Holds.eapCopy (pre : List RadiusAttr) (h : Holds m hdr (pre ++ post)) (eap : List Byte) :
    m.eapCopy (attrPtrs m.addr (radiusHdrLen + (encodeAttrs pre).length) post) eap =
      some (eap ++ eapData post) := by
  induction post generalizing pre eap with
  | nil => rw [attrPtrs, RadiusMsg.eapCopy, eapData, flatMap_nil, append_nil]
  | cons a post ih =>
    have ha := h.fits a (by simp)
    have hvalue := h.value
    rw [attrPtrs_behind, RadiusMsg.eapCopy, h.header]
    rw [append_cons] at h
    simp only [bind_eq_bind, bind_some]
    split
    · next htype =>
      rw [valueLength_of_fits ha, bind_some, hvalue, bind_some, ih _ h,
        eapData_cons_of_eq htype, append_assoc]
    · next htype => rw [ih _ h, eapData_cons_of_ne htype]

/-- **`Radius_msg_get_eap`** joins the EAP-Message attributes. -/
theorem Holds.getEap (h : Holds m hdr as) (mem : Mem) : m.radiusMsgGetEap mem =
      some (if eapData as = [] ∨ mem 0 = false then none else some (eapData as)) := by
  have hlen := Holds.eapLength [] h 0
  have hcopy := Holds.eapCopy [] h []
  rw [encodeAttrs_nil, length_nil, Nat.add_zero, ← h.attrs, Nat.zero_add] at hlen
  rw [encodeAttrs_nil, length_nil, Nat.add_zero, ← h.attrs, nil_append] at hcopy
  simp only [RadiusMsg.radiusMsgGetEap, hlen, hcopy, bind_eq_bind, bind_some, Nat.le_refl, if_true]
  by_cases hempty : eapData as = []
  · simp [hempty]
  · have hne : (eapData as).length ≠ 0 := fun h0 => hempty (length_eq_zero_iff.mp h0)
    cases mem 0 <;> simp [hempty]

/-! ## Calls -/

/-- A call that adds to a message, with what its allocations do. -/
inductive Call where
  | addAttr (type : Byte) (data : List Byte) (alloc : RadiusMsg.Alloc)
  | addEap (data : List Byte) (allocs : Nat → RadiusMsg.Alloc)

namespace Call

/-- The attributes that a call adds. -/
def attrs : Call → List RadiusAttr
  | .addAttr type data _ => [⟨type, data⟩]
  | .addEap data _ => eapAttrs data

/-- What a call adds to the EAP packet of the message. -/
def eap : Call → List Byte
  | .addAttr type data _ => if type = radiusAttrEapMessage then data else []
  | .addEap data _ => data

/-- The data of an attribute is of at most `RADIUS_MAX_ATTR_LEN` bytes. -/
def Short : Call → Prop
  | .addAttr _ data _ => data.length ≤ radiusMaxAttrLen
  | .addEap _ _ => True

def Allocated : Call → Prop
  | .addAttr _ _ alloc => alloc.Succeeds
  | .addEap _ allocs => ∀ n, (allocs n).Succeeds

end Call

/-- One call: the message, and whether the call succeeds. -/
def RadiusMsg.call (m : RadiusMsg) : Call → Option (RadiusMsg × Bool)
  | .addAttr type data alloc => (m.radiusMsgAddAttr type data alloc).map fun r => (r.1, r.2.isSome)
  | .addEap data allocs => RadiusMsg.radiusMsgAddEap (data.length + 1) m data allocs

/-- Calls one after the other, and whether all succeed. -/
def RadiusMsg.calls : RadiusMsg → List Call → Option (RadiusMsg × Bool)
  | m, [] => some (m, true)
  | m, c :: cs => do
    let (m, ok) ← m.call c
    let (m, oks) ← m.calls cs
    some (m, ok && oks)

/-- **A call** adds its attributes. -/
theorem Holds.call (h : Holds m hdr as) {c : Call} (hshort : c.Short) (halloc : c.Allocated)
    (htotal : radiusHdrLen + (encodeAttrs (as ++ c.attrs)).length < 2 ^ 16) :
    ∃ m', m.call c = some (m', true) ∧ Holds m' hdr (as ++ c.attrs) := by
  cases c with
  | addAttr type data alloc =>
    obtain ⟨m', hadd, h'⟩ := h.addAttr (a := ⟨type, data⟩) hshort halloc htotal
    refine ⟨m', ?_, h'⟩
    rw [RadiusMsg.call, hadd]
    rfl
  | addEap data allocs => exact h.addEap (Nat.lt_succ_self _) halloc htotal

/-- **Calls** add their attributes in order. -/
theorem Holds.calls (h : Holds m hdr as) {cs : List Call} (hshort : ∀ c ∈ cs, c.Short)
    (halloc : ∀ c ∈ cs, c.Allocated)
    (htotal : radiusHdrLen + (encodeAttrs (as ++ cs.flatMap Call.attrs)).length < 2 ^ 16) :
    ∃ m', m.calls cs = some (m', true) ∧ Holds m' hdr (as ++ cs.flatMap Call.attrs) := by
  induction cs generalizing m as with
  | nil => exact ⟨m, rfl, by simpa using h⟩
  | cons c cs ih =>
    rw [flatMap_cons, ← append_assoc] at htotal ⊢
    have hone : radiusHdrLen + (encodeAttrs (as ++ c.attrs)).length < 2 ^ 16 := by
      rw [encodeAttrs_append, length_append] at htotal
      omega
    obtain ⟨m₁, hcall, h₁⟩ := h.call (hshort c mem_cons_self) (halloc c mem_cons_self) hone
    obtain ⟨m₂, hcalls, h₂⟩ := ih h₁ (fun d hd => hshort d (mem_cons_of_mem c hd))
      (fun d hd => halloc d (mem_cons_of_mem c hd)) htotal
    refine ⟨m₂, ?_, h₂⟩
    rw [RadiusMsg.calls, hcall]
    simp only [bind_eq_bind, bind_some, hcalls, Bool.and_true]

theorem eapData_attrs (cs : List Call) : eapData (cs.flatMap Call.attrs) = cs.flatMap Call.eap := by
  rw [eapData, flatMap_assoc]
  congr 1
  funext c
  cases c with
  | addAttr type data alloc => simp [Call.attrs, Call.eap]
  | addEap data allocs =>
    have hpieces : (eapAttrs data).flatMap
        (fun a => if a.type = radiusAttrEapMessage then a.value else []) =
          (eapPieces data).flatten := by
      rw [eapAttrs, flatMap_map, flatten_eq_flatMap]
      simp
    exact hpieces.trans (flatten_eapPieces data)

/-! ## The round trip -/

theorem holds_radiusMsgNew (code identifier : Byte) (addr : Addr) :
    ∃ m hdr, radiusMsgNew code identifier addr = some m ∧ Holds m hdr [] := by
  let m : RadiusMsg := ⟨addr, replicate radiusDefaultMsgSize 0, radiusHdrLen, [],
    radiusDefaultAttrCount⟩
  have hinit : radiusMsgInitialize radiusDefaultMsgSize addr (fun _ => true) = some m := rfl
  have hm : Holds m (replicate radiusHdrLen 0) [] := by
    refine ⟨length_replicate, rfl,
      ⟨replicate (radiusDefaultMsgSize - radiusHdrLen) 0, ?_⟩, rfl, by simp, ?_,
      Nat.succ_pos 15, Nat.zero_le _⟩
    · rw [encodeAttrs_nil, nil_append, replicate_append_replicate]
      rfl
    · show (replicate radiusDefaultMsgSize (0 : Byte)).length < _
      rw [length_replicate]
      decide
  have hroom : 0 + [code, identifier].length ≤ radiusHdrLen :=
    show 0 + 2 ≤ radiusHdrLen by decide
  obtain ⟨m', hwrite, h', -⟩ := hm.writeHdr hroom
  refine ⟨m', _, ?_, h'⟩
  have hptr : m.addr + BitVec.ofNat 32 0 = m.addr := BitVec.add_zero _
  rw [hptr] at hwrite
  simp only [radiusMsgNew, hinit, bind_eq_bind, bind_some]
  exact hwrite

/-- What `Radius_msg_finish` adds. -/
def authenticatorAttrs (secret : Option (List Byte)) (mac : List Byte) : List RadiusAttr :=
  if secret.isSome then [⟨radiusAttrMessageAuthenticator, mac⟩] else []

theorem eapData_append_authenticator (as : List RadiusAttr) (secret : Option (List Byte))
    (mac : List Byte) : eapData (as ++ authenticatorAttrs secret mac) = eapData as := by
  have hnone : eapData (authenticatorAttrs secret mac) = [] := by
    cases secret with
    | none => rfl
    | some s =>
      have hother : radiusAttrMessageAuthenticator ≠ radiusAttrEapMessage := by decide
      exact eapData_cons_of_ne (a := ⟨radiusAttrMessageAuthenticator, mac⟩) hother
  have happend : eapData (as ++ authenticatorAttrs secret mac) =
      eapData as ++ eapData (authenticatorAttrs secret mac) := flatMap_append
  rw [happend, hnone, append_nil]

theorem Holds.zeroed {type : Byte} {value : List Byte} (h : Holds m hdr (as ++ [⟨type, value⟩])) :
    m.buf.take (m.bufUsed - value.length) ++ replicate value.length 0 =
      hdr ++ encodeAttrs (as ++ [⟨type, replicate value.length 0⟩]) := by
  have hbytes : m.buf.take m.bufUsed = (hdr ++ encodeAttrs as ++
      [type, BitVec.ofNat 8 (radiusAttrHdrLen + value.length)]) ++ value := by
    rw [h.take]
    simp [encodeAttrs_append, RadiusAttr.encode]
  have hused := congrArg List.length hbytes
  rw [length_take_of_le h.used_le, length_append] at hused
  have htake : m.buf.take (m.bufUsed - value.length) = hdr ++ encodeAttrs as ++
      [type, BitVec.ofNat 8 (radiusAttrHdrLen + value.length)] := by
    have hless : m.bufUsed - value.length = min (m.bufUsed - value.length) m.bufUsed := by omega
    rw [hless, ← take_take, hbytes]
    exact take_left' (by omega)
  rw [htake]
  simp [encodeAttrs_append, RadiusAttr.encode]

/-- **A finished message** holds what it held, and the Message-Authenticator where there is a
    secret. -/
theorem Holds.finished (h : Holds m hdr as) (hmacMd5 : List Byte → List Byte → Buf md5MacLen)
    (secret : Option (List Byte)) {alloc : RadiusMsg.Alloc} (halloc : alloc.Succeeds)
    (htotal : radiusHdrLen + (encodeAttrs (as ++ authenticatorAttrs secret
      (replicate md5MacLen 0))).length < 2 ^ 16) :
    ∃ m' hdr' mac, m.radiusMsgFinish hmacMd5 secret alloc = some m' ∧
      Holds m' hdr' (as ++ authenticatorAttrs secret mac) ∧ LengthSet hdr' m'.bufUsed ∧
      m'.bufUsed < 2 ^ 16 ∧
      ∀ s, secret = some s → mac = (hmacMd5 s (hdr' ++ encodeAttrs
        (as ++ authenticatorAttrs secret (replicate md5MacLen 0)))).bytes := by
  cases secret with
  | none =>
    obtain ⟨m', hdr', hset, h', hlength, -⟩ := h.setLength
    simp only [authenticatorAttrs, isSome_none, Bool.false_eq_true, if_false,
      append_nil] at htotal ⊢
    have hused : m'.bufUsed = m.bufUsed := by rw [h'.used, h.used]
    refine ⟨m', hdr', [], hset, h', hused ▸ hlength, ?_, fun s hs => by cases hs⟩
    rw [h'.used]
    exact htotal
  | some secret =>
    simp only [authenticatorAttrs, isSome_some, if_true] at htotal ⊢
    have hzero : (encodeAttrs (as ++ [⟨radiusAttrMessageAuthenticator,
        replicate md5MacLen 0⟩])).length =
          (encodeAttrs as).length + (radiusAttrHdrLen + md5MacLen) := by
      simp [encodeAttrs_append]
    obtain ⟨m', hdr', mac, hfinish, h', hlength, hmac⟩ := h.finish hmacMd5 secret halloc (by omega)
    refine ⟨m', hdr', mac, hfinish, h', hlength, ?_, ?_⟩
    · have hlen : mac.length = md5MacLen := by rw [hmac]; exact Buf.size _
      rw [h'.used]
      simp only [encodeAttrs_append, encodeAttrs_cons, encodeAttrs_nil, append_nil,
        length_append, RadiusAttr.length_encode, length_replicate, hlen] at htotal ⊢
      exact htotal
    · rintro s ⟨⟩
      exact hmac

/-- **The round trip**: a message that is built by any calls and finished is parsed to the
    attributes that were added, and the EAP packet is what was added to it. -/
theorem radiusMsgParse_finish (hmacMd5 : List Byte → List Byte → Buf md5MacLen)
    (code identifier : Byte) (addr : Addr) (cs : List Call) (secret : Option (List Byte))
    (alloc : RadiusMsg.Alloc) (hshort : ∀ c ∈ cs, c.Short) (hcalls : ∀ c ∈ cs, c.Allocated)
    (halloc : alloc.Succeeds) (htotal : radiusHdrLen + (encodeAttrs (cs.flatMap Call.attrs ++
      authenticatorAttrs secret (List.replicate md5MacLen 0))).length < 2 ^ 16) (addr' : Addr) :
    ∃ m₀ m m' p mac,
      radiusMsgNew code identifier addr = some m₀ ∧ m₀.calls cs = some (m, true) ∧
      m.radiusMsgFinish hmacMd5 secret alloc = some m' ∧
      radiusMsgParse (m'.buf.take m'.bufUsed) addr' (fun _ => true) (fun _ => true) =
        some (some p) ∧
      p.attributes = some (cs.flatMap Call.attrs ++ authenticatorAttrs secret mac) ∧
      (∀ s, secret = some s → mac = (hmacMd5 s (m'.buf.take (m'.bufUsed - md5MacLen) ++
        List.replicate md5MacLen 0)).bytes) ∧
      p.radiusMsgGetEap (fun _ => true) =
        some (if cs.flatMap Call.eap = [] then none else some (cs.flatMap Call.eap)) := by
  obtain ⟨m₀, hdr, hnew, h₀⟩ := holds_radiusMsgNew code identifier addr
  have hbefore : radiusHdrLen + (encodeAttrs ([] ++ cs.flatMap Call.attrs)).length < 2 ^ 16 := by
    rw [encodeAttrs_append, List.length_append] at htotal
    rw [List.nil_append]
    omega
  obtain ⟨m, hrun, h⟩ := h₀.calls hshort hcalls hbefore
  rw [List.nil_append] at h
  obtain ⟨m', hdr', mac, hfinish, h', hlength, hlt, hmac⟩ := h.finished hmacMd5 secret halloc htotal
  -- the bytes of the message are well formed
  have hwell : WellFormed (m'.buf.take m'.bufUsed) hdr'
      (cs.flatMap Call.attrs ++ authenticatorAttrs secret mac) := by
    refine ⟨⟨[], ?_⟩, h'.hdrLen, h'.fits, h'.used ▸ hlength, h'.used ▸ hlt⟩
    rw [List.append_nil]
    exact h'.take
  obtain ⟨r, hparse, hparsed, haccepts⟩ := radiusMsgParse_spec (m'.buf.take m'.bufUsed) addr'
    (fun _ => true) (fun _ => true)
  obtain ⟨p, rfl⟩ := Option.isSome_iff_exists.mp
    (haccepts (fun _ => rfl) (fun _ => rfl) ⟨_, _, hwell⟩)
  obtain ⟨hdr₁, as₁, hwell₁, hp, -⟩ := hparsed p rfl
  have hsame := hwell.unique hwell₁
  obtain ⟨-, rfl⟩ := hsame
  refine ⟨m₀, m, m', p, mac, hnew, hrun, hfinish, hparse, hp.attributes, ?_, ?_⟩
  · rintro s rfl
    have hlen : mac.length = md5MacLen := by rw [hmac s rfl]; exact Buf.size _
    have hzeroed := h'.zeroed
    rw [hlen] at hzeroed
    rw [hzeroed]
    exact hmac s rfl
  · rw [hp.getEap, eapData_append_authenticator, eapData_attrs]
    simp

/-- A User-Name and an EAP packet of four bytes. -/
theorem radiusMsgParse_finish_identity : ∃ m₀ m m' p mac,
      radiusMsgNew 1 7 0x1000 = some m₀ ∧
      m₀.calls [.addAttr 1 [0x62, 0x6f, 0x62] ⟨some 0x2000, true⟩,
        .addEap [2, 1, 0, 4] fun _ => ⟨some 0x3000, true⟩] = some (m, true) ∧
      m.radiusMsgFinish (fun _ _ => Buf.fill md5MacLen 9) (some [0x73]) ⟨some 0x4000, true⟩ =
        some m' ∧
      radiusMsgParse (m'.buf.take m'.bufUsed) 0x5000 (fun _ => true) (fun _ => true) =
        some (some p) ∧
      p.attributes = some [⟨1, [0x62, 0x6f, 0x62]⟩, ⟨79, [2, 1, 0, 4]⟩, ⟨80, mac⟩] ∧
      p.radiusMsgGetEap (fun _ => true) = some (some [2, 1, 0, 4]) := by
  have hpieces : eapAttrs [2, 1, 0, 4] = [⟨79, [2, 1, 0, 4]⟩] := by
    rw [eapAttrs_of_ne (by simp)]
    exact congrArg _ eapAttrs_nil
  have hattrs : ([.addAttr 1 [0x62, 0x6f, 0x62] ⟨some 0x2000, true⟩,
      .addEap [2, 1, 0, 4] fun _ => ⟨some 0x3000, true⟩] : List Call).flatMap Call.attrs =
        [⟨1, [0x62, 0x6f, 0x62]⟩, ⟨79, [2, 1, 0, 4]⟩] := by
    show [⟨1, [0x62, 0x6f, 0x62]⟩] ++ (eapAttrs [2, 1, 0, 4] ++ []) = _
    rw [hpieces]
    rfl
  obtain ⟨m₀, m, m', p, mac, hnew, hcalls, hfinish, hparse, hparsed, -, heap⟩ :=
    radiusMsgParse_finish (fun _ _ => Buf.fill md5MacLen 9) 1 7 0x1000
      [.addAttr 1 [0x62, 0x6f, 0x62] ⟨some 0x2000, true⟩,
        .addEap [2, 1, 0, 4] fun _ => ⟨some 0x3000, true⟩] (some [0x73]) ⟨some 0x4000, true⟩
      (by simp [Call.Short, radiusMaxAttrLen, radiusAttrHdrLen])
      (by simp [Call.Allocated, RadiusMsg.Alloc.Succeeds])
      ⟨rfl, rfl⟩ (by rw [hattrs]; decide) 0x5000
  rw [hattrs] at hparsed
  exact ⟨m₀, m, m', p, mac, hnew, hcalls, hfinish, hparse, hparsed, heap⟩

end RalinkSdk.Radius
