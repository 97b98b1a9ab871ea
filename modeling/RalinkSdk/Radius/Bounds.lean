import RalinkSdk.Radius.Keys
import RalinkSdk.Radius.RoundTrip

/-!
# Accesses when a reply is processed

A reply is parsed, verified and searched for its EAP packet and the two keys.  The parser checks
that every attribute lies in the message, but neither that a Message-Authenticator has 16 bytes nor
that the attributes inside a vendor attribute have a length.
-/

namespace RalinkSdk.Radius

open Lib List Option Nat
open BitVec (ofNat)

variable {m : RadiusMsg} {hdr : List Byte} {as pre post : List RadiusAttr} {a : RadiusAttr}

/-! ## Processing a reply -/

structure ReplyAllocs where
  addr : Addr
  parse : Mem
  grows : Nat → Bool
  eap : Mem
  keys : Mem

/-- `Radius_msg_parse`, and for a message `Radius_msg_verify`, `Radius_msg_get_eap` and
    `Radius_msg_get_ms_keys`. -/
def processReply (md5 : List Byte → Buf md5MacLen) (hmacMd5 : List Byte → List Byte → Buf md5MacLen)
    (secret : List Byte) (sent : Option (Buf md5MacLen)) (data : List Byte) (allocs : ReplyAllocs) :
    Option Unit := do
  match ← radiusMsgParse data allocs.addr allocs.parse allocs.grows with
  | none => some ()
  | some m => do
    let (m, _) ← m.radiusMsgVerify md5 hmacMd5 secret sent
    let _ ← m.radiusMsgGetEap allocs.eap
    let _ ← m.radiusMsgGetMsKeys md5 sent secret allocs.keys
    some ()

/-- Whatever the digests, the secret, the request and the allocations are, processing the datagram
    ends, stays inside the message and finds no negative length. -/
def ProcessesSafely (data : List Byte) : Prop :=
  ∀ md5 hmacMd5 secret sent allocs, (processReply md5 hmacMd5 secret sent data allocs).isSome

/-! ## Verifying -/

/-- The only Message-Authenticator has 16 bytes behind its header, if not all in its value. -/
def AuthenticatorFits (as : List RadiusAttr) : Prop :=
  ∀ pre a post, as = pre ++ a :: post → a.type = radiusAttrMessageAuthenticator →
    (∀ b ∈ pre, b.type ≠ radiusAttrMessageAuthenticator) →
    (∀ b ∈ post, b.type ≠ radiusAttrMessageAuthenticator) →
      md5MacLen ≤ a.value.length + (encodeAttrs post).length

theorem Holds.messageAuthenticator_pass (pre post : List RadiusAttr)
    (h : Holds m hdr (pre ++ (as ++ post)))
    (hother : ∀ b ∈ as, b.type ≠ radiusAttrMessageAuthenticator) (attr : Option Addr) :
    m.messageAuthenticator
        (attrPtrs m.addr (radiusHdrLen + (encodeAttrs pre).length) (as ++ post)) attr =
      m.messageAuthenticator
        (attrPtrs m.addr (radiusHdrLen + (encodeAttrs (pre ++ as)).length) post) attr := by
  induction as generalizing pre with
  | nil => rw [nil_append, append_nil]
  | cons a as ih =>
    rw [cons_append] at h ⊢
    rw [attrPtrs_behind, RadiusMsg.messageAuthenticator, h.header]
    rw [append_cons] at h
    simp only [bind_eq_bind, bind_some, if_neg (hother a mem_cons_self)]
    rw [ih _ h fun b hb => hother b (mem_cons_of_mem a hb), ← append_cons]

theorem exists_authenticator (as : List RadiusAttr) :
    (∀ b ∈ as, b.type ≠ radiusAttrMessageAuthenticator) ∨
      ∃ pre a post, as = pre ++ a :: post ∧ a.type = radiusAttrMessageAuthenticator ∧
        ∀ b ∈ pre, b.type ≠ radiusAttrMessageAuthenticator := by
  induction as with
  | nil => exact .inl (by simp)
  | cons a as ih =>
    by_cases ha : a.type = radiusAttrMessageAuthenticator
    · exact .inr ⟨[], a, as, rfl, ha, by simp⟩
    rcases ih with hnone | ⟨pre, b, post, rfl, hb, hpre⟩
    · exact .inl (by simpa [ha] using hnone)
    · exact .inr ⟨a :: pre, b, post, rfl, hb, by simpa [ha] using hpre⟩

theorem authenticator_unique {pre' post' : List RadiusAttr} {a' : RadiusAttr}
    (h : pre ++ a :: post = pre' ++ a' :: post') (ha : a.type = radiusAttrMessageAuthenticator)
    (ha' : a'.type = radiusAttrMessageAuthenticator)
    (hpre : ∀ b ∈ pre, b.type ≠ radiusAttrMessageAuthenticator)
    (hpre' : ∀ b ∈ pre', b.type ≠ radiusAttrMessageAuthenticator) : a = a' ∧ post = post' := by
  induction pre generalizing pre' with
  | nil =>
    cases pre' with
    | nil => exact List.cons.inj h
    | cons b pre' =>
      obtain ⟨rfl, -⟩ := List.cons.inj h
      exact absurd ha (hpre' a mem_cons_self)
  | cons b pre ih =>
    cases pre' with
    | nil =>
      obtain ⟨rfl, -⟩ := List.cons.inj h
      exact absurd ha' (hpre b mem_cons_self)
    | cons b' pre' =>
      exact ih (List.cons.inj h).2 (fun c hc => hpre c (mem_cons_of_mem b hc))
        (fun c hc => hpre' c (mem_cons_of_mem b' hc))

/-- The number of Message-Authenticators. -/
def authenticators (as : List RadiusAttr) : Nat :=
  as.countP fun b => b.type = radiusAttrMessageAuthenticator

theorem authenticators_eq_zero (h : ∀ b ∈ as, b.type ≠ radiusAttrMessageAuthenticator) :
    authenticators as = 0 := countP_eq_zero.mpr (by simpa using h)

theorem authenticatorFits_of_ne (h : authenticators as ≠ 1) : AuthenticatorFits as := by
  rintro pre a post rfl ha hpre hpost
  have hone : authenticators (pre ++ a :: post) = 1 := by
    have hzero := authenticators_eq_zero hpre
    have hzero' := authenticators_eq_zero hpost
    simp only [authenticators] at hzero hzero' ⊢
    rw [countP_append, countP_cons_of_pos (by simpa using ha), hzero, hzero']
  exact absurd hone h

/-- **The loop of `Radius_msg_verify`** finds the Message-Authenticator if it is the only one. -/
theorem Holds.messageAuthenticator (h : Holds m hdr as) :
    m.messageAuthenticator m.attrs none = some none ∧ AuthenticatorFits as ∨
      ∃ pre a post, as = pre ++ a :: post ∧ a.type = radiusAttrMessageAuthenticator ∧
        (∀ b ∈ pre, b.type ≠ radiusAttrMessageAuthenticator) ∧
        (∀ b ∈ post, b.type ≠ radiusAttrMessageAuthenticator) ∧
        m.messageAuthenticator m.attrs none =
          some (some (m.addr + ofNat 32 (radiusHdrLen + (encodeAttrs pre).length))) := by
  rw [h.attrs]
  rcases exists_authenticator as with hnone | ⟨pre, a, post, rfl, ha, hpre⟩
  · have hpass := Holds.messageAuthenticator_pass [] [] (by simpa using h) hnone none
    rw [append_nil, encodeAttrs_nil, length_nil, Nat.add_zero] at hpass
    refine .inl ⟨hpass, authenticatorFits_of_ne ?_⟩
    rw [authenticators_eq_zero hnone]
    exact Nat.zero_ne_one
  have hpass := Holds.messageAuthenticator_pass [] (a :: post) h hpre none
  rw [encodeAttrs_nil, length_nil, Nat.add_zero, nil_append, attrPtrs_behind] at hpass
  rw [hpass, RadiusMsg.messageAuthenticator, h.header]
  simp only [bind_eq_bind, bind_some, ha, if_true, isSome_none, Bool.false_eq_true, if_false]
  -- is there another one?
  rw [append_cons] at h
  rcases exists_authenticator post with hone | ⟨mid, b, rest, rfl, hb, hmid⟩
  · refine .inr ⟨pre, a, post, rfl, ha, hpre, hone, ?_⟩
    have hend := Holds.messageAuthenticator_pass (pre ++ [a]) [] (by simpa using h) hone
      (some (m.addr + ofNat 32 (radiusHdrLen + (encodeAttrs pre).length)))
    rw [append_nil] at hend
    exact hend
  · have hnext := Holds.messageAuthenticator_pass (pre ++ [a]) (b :: rest) h hmid
      (some (m.addr + ofNat 32 (radiusHdrLen + (encodeAttrs pre).length)))
    rw [← append_assoc] at h
    rw [attrPtrs_behind, RadiusMsg.messageAuthenticator, h.header] at hnext
    simp only [bind_eq_bind, bind_some, hb, if_true, isSome_some] at hnext
    refine .inl ⟨hnext, authenticatorFits_of_ne ?_⟩
    have ha' : decide (a.type = radiusAttrMessageAuthenticator) = true := by simpa using ha
    have hb' : decide (b.type = radiusAttrMessageAuthenticator) = true := by simpa using hb
    simp only [authenticators, countP_append, countP_cons, ha', hb', if_true]
    omega

/-- The message with other bytes in its buffer. -/
def RadiusMsg.withBuf (m : RadiusMsg) (buf : List Byte) : RadiusMsg := { m with buf := buf }

theorem read_withBuf {P old S : List Byte} {o n : Nat} (hP : P.length = o) (hn : old.length = n)
    (ho : o < 2 ^ 32) :
    (m.withBuf (P ++ (old ++ S))).read (m.addr + ofNat 32 o) n = some old :=
  (read_ptr (m := m.withBuf (P ++ (old ++ S))) ho).trans (fetch_append hP hn)

theorem write_withBuf {P old S src : List Byte} {o : Nat} (hP : P.length = o)
    (hlen : old.length = src.length) (ho : o < 2 ^ 32) :
    (m.withBuf (P ++ (old ++ S))).write (m.addr + ofNat 32 o) src =
      some (m.withBuf (P ++ (src ++ S))) := by
  refine (write_ptr (m := m.withBuf (P ++ (old ++ S))) ho src).trans ?_
  show (put (P ++ (old ++ S)) o src).map _ = _
  rw [put_append hP hlen]
  rfl

theorem exists_read {o n : Nat} (h : o + n ≤ m.buf.length) (ho : o < 2 ^ 32) :
    ∃ bytes, m.read (m.addr + ofNat 32 o) n = some bytes := by
  rw [read_ptr ho]
  exact isSome_iff_exists.mp (fetch_isSome_iff.mpr h)

/-- **`Radius_msg_verify`** leaves the message as it was, if it can read the 16 bytes. -/
theorem Holds.verify_of_fits {pre post : List RadiusAttr} {a : RadiusAttr}
    (h : Holds m hdr (pre ++ a :: post)) (hfound : m.messageAuthenticator m.attrs none =
      some (some (m.addr + ofNat 32 (radiusHdrLen + (encodeAttrs pre).length))))
    (hroom : radiusHdrLen + (encodeAttrs pre).length + radiusAttrHdrLen + md5MacLen ≤ m.buf.length)
    (md5 : List Byte → Buf md5MacLen) (hmacMd5 : List Byte → List Byte → Buf md5MacLen)
    (secret : List Byte) (sent : Buf md5MacLen) :
    ∃ ok, m.radiusMsgVerify md5 hmacMd5 secret (some sent) = some (m, ok) := by
  have hsize := h.size
  have hused := h.used_le
  have husedLen := h.used
  -- the bytes of the two authenticators, and what is around them
  obtain ⟨A, auth, B, orig, C, hbuf, hA, hauth, hB, horig⟩ : ∃ A auth B orig C : List Byte,
      m.buf = A ++ (auth ++ (B ++ (orig ++ C))) ∧ A.length = 4 ∧ auth.length = md5MacLen ∧
      B.length = (encodeAttrs pre).length + radiusAttrHdrLen ∧ orig.length = md5MacLen := by
    simp only [radiusHdrLen, radiusAttrHdrLen, md5MacLen] at hroom
    refine ⟨m.buf.take 4, (m.buf.drop 4).take 16,
      ((m.buf.drop 4).drop 16).take ((encodeAttrs pre).length + 2),
      (((m.buf.drop 4).drop 16).drop ((encodeAttrs pre).length + 2)).take 16,
      (((m.buf.drop 4).drop 16).drop ((encodeAttrs pre).length + 2)).drop 16, ?_, ?_, ?_, ?_, ?_⟩
    · simp only [take_append_drop]
    · rw [length_take]
      omega
    · show ((m.buf.drop 4).take 16).length = 16
      rw [length_take, length_drop]
      omega
    · simp only [length_take, length_drop, radiusAttrHdrLen]
      omega
    · show ((((m.buf.drop 4).drop 16).drop ((encodeAttrs pre).length + 2)).take 16).length = 16
      simp only [length_take, length_drop]
      omega
  have hvalue : (A ++ (auth ++ B)).length =
      radiusHdrLen + (encodeAttrs pre).length + radiusAttrHdrLen := by
    simp only [length_append, hA, hauth, hB, radiusHdrLen, radiusAttrHdrLen, md5MacLen]
    omega
  have hvalue' : (A ++ (sent.bytes ++ B)).length =
      radiusHdrLen + (encodeAttrs pre).length + radiusAttrHdrLen := by
    rw [← hvalue]
    simp only [length_append, hauth, sent.size]
  have hlt : radiusHdrLen + (encodeAttrs pre).length + radiusAttrHdrLen < 2 ^ 32 := by omega
  have hfour : 4 < 2 ^ 32 := by decide
  obtain ⟨zeros, hzero⟩ : ∃ zeros : List Byte, zeros = replicate md5MacLen 0 := ⟨_, rfl⟩
  have hzeros : orig.length = zeros.length := by rw [horig, hzero, length_replicate]
  have hself : m = m.withBuf (A ++ (auth ++ (B ++ (orig ++ C)))) := by rw [← hbuf]; rfl
  -- reading and writing, in the order of the code
  have hreadOrig := read_withBuf (m := m) (P := A ++ (auth ++ B)) (S := C) hvalue horig hlt
  have hwriteZeros := write_withBuf (m := m) (P := A ++ (auth ++ B)) (S := C) hvalue hzeros hlt
  have hreadAuth := read_withBuf (m := m) (S := B ++ (zeros ++ C)) hA hauth hfour
  have hwriteSent := write_withBuf (m := m) (S := B ++ (zeros ++ C)) hA
    (hauth.trans sent.size.symm) hfour
  have hwriteOrig := write_withBuf (m := m) (P := A ++ (sent.bytes ++ B)) (S := C) hvalue'
    hzeros.symm hlt
  have hwriteAuth := write_withBuf (m := m) (S := B ++ (orig ++ C)) hA
    (sent.size.trans hauth.symm) hfour
  simp only [append_assoc] at hreadOrig hwriteZeros hwriteOrig
  rw [← hself] at hreadOrig hwriteZeros hwriteAuth
  obtain ⟨bytes, hbytes⟩ := exists_read
    (m := m.withBuf (A ++ (sent.bytes ++ (B ++ (zeros ++ C))))) (o := 0) (n := m.bufUsed) (by
      have hlen := congrArg List.length hbuf
      simp only [length_append, hauth, hzeros] at hlen
      simp only [RadiusMsg.withBuf, length_append, sent.size]
      omega) (by decide)
  obtain ⟨head, hhead⟩ := exists_read (m := m) (o := 0) (n := 4)
    (by simp only [radiusHdrLen] at hroom; omega) (by decide)
  obtain ⟨attributes, hattributes⟩ := exists_read (m := m) (o := radiusHdrLen)
    (n := m.bufUsed - radiusHdrLen) (by omega) (by decide)
  obtain ⟨response, hresponse⟩ := exists_read (m := m) (o := 4) (n := md5MacLen)
    (by simp only [radiusHdrLen, md5MacLen] at hroom ⊢; omega) hfour
  have hfourAddr : m.addr + 4 = m.addr + ofNat 32 4 := rfl
  simp only [RadiusMsg.radiusMsgVerify, hfound, bind_eq_bind, bind_some, ptr_add,
    hreadOrig, ← hzero, hwriteZeros, hfourAddr, hreadAuth, hwriteSent]
  have hbytes' : (m.withBuf (A ++ (sent.bytes ++ (B ++ (zeros ++ C))))).read
      (m.withBuf (A ++ (sent.bytes ++ (B ++ (zeros ++ C))))).addr
      (m.withBuf (A ++ (sent.bytes ++ (B ++ (zeros ++ C))))).bufUsed = some bytes := by
    rw [BitVec.add_zero] at hbytes
    exact hbytes
  have hhead' : m.read m.addr 4 = some head := by
    rw [BitVec.add_zero] at hhead
    exact hhead
  simp only [hbytes', bind_some, hwriteOrig, hwriteAuth, hhead', hattributes, hresponse]
  split
  · exact ⟨false, rfl⟩
  · exact ⟨_, rfl⟩

/-- **Verifying** stays inside the message, and leaves it as it was, exactly if the 16 bytes are
    there. -/
theorem Holds.verify_isSome_iff (h : Holds m hdr as) (hwhole : m.bufUsed = m.buf.length)
    (md5 : List Byte → Buf md5MacLen) (hmacMd5 : List Byte → List Byte → Buf md5MacLen)
    (secret : List Byte) (sent : Buf md5MacLen) : (AuthenticatorFits as →
      ∃ ok, m.radiusMsgVerify md5 hmacMd5 secret (some sent) = some (m, ok)) ∧
    ((m.radiusMsgVerify md5 hmacMd5 secret (some sent)).isSome → AuthenticatorFits as) := by
  have hused := h.used
  have hsize := h.size
  rcases h.messageAuthenticator with ⟨hnone, hfits⟩ | ⟨pre, a, post, rfl, ha, hpre, hpost, hfound⟩
  · have hverify : m.radiusMsgVerify md5 hmacMd5 secret (some sent) = some (m, false) := by
      simp only [RadiusMsg.radiusMsgVerify, hnone, bind_eq_bind, bind_some]
    exact ⟨fun _ => ⟨false, hverify⟩, fun _ => hfits⟩
  rw [hwhole] at hused
  simp only [encodeAttrs_append, encodeAttrs_cons, length_append, RadiusAttr.length_encode] at hused
  constructor
  · intro hfits
    have hroom := hfits pre a post rfl ha hpre hpost
    exact h.verify_of_fits hfound (by omega) md5 hmacMd5 secret sent
  · -- the first access is that to the 16 bytes
    intro hsome pre' a' post' hsplit ha' hpre' hpost'
    have hread : (m.read (m.addr + ofNat 32 (radiusHdrLen + (encodeAttrs pre).length) +
        ofNat 32 radiusAttrHdrLen) md5MacLen).isSome := by
      by_contra hno
      rw [not_isSome_iff_eq_none] at hno
      simp [RadiusMsg.radiusMsgVerify, hfound, hno] at hsome
    rw [ptr_add, read_ptr (by omega), fetch_isSome_iff] at hread
    obtain ⟨rfl, rfl⟩ := authenticator_unique hsplit ha ha' hpre hpre'
    omega

/-! ## The search for a key -/

/-- The vendor attributes that the search for type `msType` looks at in the bytes of one
    attribute. -/
def vendorHeaders (msType : Byte) : List Byte → List (Byte × Byte)
  | vendorType :: vendorLength :: rest =>
    if radiusVendorHdrLen + rest.length < vendorLength.toNat then []
    else if vendorType = msType ∨ vendorLength.toNat = 0 then [(vendorType, vendorLength)]
    else (vendorType, vendorLength) ::
      vendorHeaders msType ((vendorType :: vendorLength :: rest).drop vendorLength.toNat)
  | _ => []
termination_by bytes => bytes.length
decreasing_by
  next h =>
  rw [not_or] at h
  simp only [length_drop, length_cons]
  omega

/-- A vendor attribute of the type that is looked for has its header, and any other has a length. -/
def LengthOk (msType : Byte) (h : Byte × Byte) : Prop :=
  if h.1 = msType then radiusVendorHdrLen ≤ h.2.toNat else 0 < h.2.toNat

theorem msAttrLoop_stalls {msType vendorType : Byte} {pos : Addr} {left : Nat} (allocated : Bool)
    (hheader : m.header pos = some (vendorType, 0)) (hother : vendorType ≠ msType)
    (hleft : radiusVendorHdrLen ≤ left) (fuel : Nat) :
    m.msAttrLoop msType allocated fuel pos left = none := by
  induction fuel with
  | zero => rfl
  | succ fuel ih =>
    simp only [RadiusMsg.msAttrLoop, if_pos hleft, hheader, bind_eq_bind, bind_some,
      BitVec.toNat_ofNat, zero_mod, Nat.not_lt_zero, if_false, if_pos hother, Nat.sub_zero,
      BitVec.add_zero, BitVec.ofNat_eq_ofNat]
    exact ih

theorem header_of_fetch {o : Nat} {type length : Byte} {rest : List Byte}
    (h : fetch m.buf o (type :: length :: rest).length = some (type :: length :: rest))
    (ho : o < 2 ^ 32) : m.header (m.addr + ofNat 32 o) = some (type, length) := by
  have hfetch : fetch m.buf o radiusAttrHdrLen = some [type, length] :=
    fetch_take h (by simp [radiusAttrHdrLen])
  rw [RadiusMsg.header, read_ptr ho, hfetch]
  rfl

/-- **The walk over vendor attributes**, where `bytes` are what is left of an attribute. -/
theorem msAttrLoop_spec (msType : Byte) {o fuel : Nat} {bytes : List Byte} (allocated : Bool)
    (hbytes : fetch m.buf o bytes.length = some bytes) (hsize : m.buf.length < 2 ^ 32)
    (hfuel : bytes.length < fuel) : ((∀ h ∈ vendorHeaders msType bytes, LengthOk msType h) →
      ∃ r, m.msAttrLoop msType allocated fuel (m.addr + ofNat 32 o) bytes.length = some r ∧
        (r = .goOn ↔ ∀ h ∈ vendorHeaders msType bytes, h.1 ≠ msType)) ∧
    ((m.msAttrLoop msType allocated fuel (m.addr + ofNat 32 o) bytes.length).isSome →
      ∀ h ∈ vendorHeaders msType bytes, LengthOk msType h) := by
  obtain ⟨fuel, rfl⟩ := exists_eq_add_one_of_ne_zero (Nat.ne_zero_of_lt hfuel)
  induction bytes using vendorHeaders.induct msType generalizing o fuel with
  | case1 vendorType vendorLength rest hlong =>
    -- the vendor attribute does not fit
    have hroom := fetch_isSome_iff.mp (isSome_of_eq_some hbytes)
    have hheader := header_of_fetch hbytes (by simp only [length_cons] at hroom; omega)
    have hleft : radiusVendorHdrLen ≤ (vendorType :: vendorLength :: rest).length := by
      simp [radiusVendorHdrLen]
    have hover : (vendorType :: vendorLength :: rest).length < vendorLength.toNat := by
      simp only [length_cons, radiusVendorHdrLen] at hlong ⊢
      omega
    rw [vendorHeaders, if_pos hlong]
    refine ⟨fun _ => ⟨.goOn, ?_, by simp⟩, by simp⟩
    simp only [RadiusMsg.msAttrLoop, if_pos hleft, hheader, bind_eq_bind, bind_some, if_pos hover]
  | case2 vendorType vendorLength rest hfits hstop =>
    have hroom := fetch_isSome_iff.mp (isSome_of_eq_some hbytes)
    have hheader := header_of_fetch hbytes (by simp only [length_cons] at hroom; omega)
    have hleft : radiusVendorHdrLen ≤ (vendorType :: vendorLength :: rest).length := by
      simp [radiusVendorHdrLen]
    have hunder : ¬ (vendorType :: vendorLength :: rest).length < vendorLength.toNat := by
      simp only [length_cons, radiusVendorHdrLen] at hfits ⊢
      omega
    rw [vendorHeaders, if_neg hfits, if_pos hstop]
    simp only [forall_mem_singleton]
    by_cases hother : vendorType = msType
    · -- this is the one that is looked for
      subst hother
      have hok : LengthOk vendorType (vendorType, vendorLength) ↔
          radiusVendorHdrLen ≤ vendorLength.toNat := by rw [LengthOk, if_pos rfl]
      rw [hok]
      simp only [RadiusMsg.msAttrLoop, if_pos hleft, hheader, bind_eq_bind, bind_some,
        if_neg hunder, ne_eq, not_true_eq_false, if_false]
      by_cases hlen : radiusVendorHdrLen ≤ vendorLength.toNat
      · have hvalue : RadiusMsg.valueLength vendorLength =
            some (vendorLength.toNat - radiusVendorHdrLen) := if_pos hlen
        rw [hvalue]
        cases allocated with
        | false => exact ⟨fun _ => ⟨.done none, rfl, by simp⟩, fun _ => hlen⟩
        | true =>
          obtain ⟨data, hdata⟩ := exists_read (m := m) (o := o + radiusVendorHdrLen)
            (n := vendorLength.toNat - radiusVendorHdrLen) (by omega)
            (by simp only [length_cons, radiusVendorHdrLen] at hroom ⊢; omega)
          simp only [bind_some, if_true, ptr_add, hdata]
          exact ⟨fun _ => ⟨.done (some data), rfl, by simp⟩, fun _ => hlen⟩
      · have hvalue : RadiusMsg.valueLength vendorLength = none := if_neg hlen
        rw [hvalue]
        exact ⟨fun h => absurd h hlen, fun h => by cases h⟩
    · -- one without a length
      have hzero : vendorLength = 0 := BitVec.eq_of_toNat_eq (hstop.resolve_left hother)
      subst hzero
      rw [msAttrLoop_stalls allocated hheader hother hleft]
      have hbad : ¬ LengthOk msType (vendorType, 0) := by
        rw [LengthOk, if_neg hother]
        exact Nat.lt_irrefl 0
      exact ⟨fun h => absurd h hbad, fun h => by cases h⟩
  | case3 vendorType vendorLength rest hfits hgo ih =>
    have hroom := fetch_isSome_iff.mp (isSome_of_eq_some hbytes)
    have hheader := header_of_fetch hbytes (by simp only [length_cons] at hroom; omega)
    have hleft : radiusVendorHdrLen ≤ (vendorType :: vendorLength :: rest).length := by
      simp [radiusVendorHdrLen]
    have hunder : vendorLength.toNat ≤ (vendorType :: vendorLength :: rest).length := by
      simp only [length_cons, radiusVendorHdrLen] at hfits ⊢
      omega
    rw [not_or] at hgo
    -- behind this one
    have hrest := fetch_drop hbytes hunder
    rw [← length_drop] at hrest
    have hless : ((vendorType :: vendorLength :: rest).drop vendorLength.toNat).length < fuel := by
      rw [length_drop]
      omega
    obtain ⟨fuel, rfl⟩ := exists_eq_add_one_of_ne_zero (Nat.ne_zero_of_lt hless)
    obtain ⟨hsafe, hback⟩ := ih hrest fuel hless
    have hstep : m.msAttrLoop msType allocated (fuel + 1 + 1) (m.addr + ofNat 32 o)
        (vendorType :: vendorLength :: rest).length =
          m.msAttrLoop msType allocated (fuel + 1)
            (m.addr + ofNat 32 (o + vendorLength.toNat))
            ((vendorType :: vendorLength :: rest).drop vendorLength.toNat).length := by
      rw [RadiusMsg.msAttrLoop, if_pos hleft, hheader]
      simp only [bind_eq_bind, bind_some, if_neg (Nat.not_lt.mpr hunder), ne_eq,
        if_pos hgo.1, ptr_add, length_drop]
    have hok : LengthOk msType (vendorType, vendorLength) := by
      rw [LengthOk, if_neg hgo.1]
      exact Nat.pos_of_ne_zero hgo.2
    rw [vendorHeaders, if_neg hfits, if_neg (not_or.mpr hgo), hstep]
    simp only [forall_mem_cons]
    refine ⟨fun h => ?_, fun h => ⟨hok, hback h⟩⟩
    obtain ⟨r, hloop, hgoOn⟩ := hsafe h.2
    exact ⟨r, hloop, hgoOn.trans (by simp [hgo.1])⟩
  | case4 bytes hshort =>
    have hlen : ¬ radiusVendorHdrLen ≤ bytes.length := by
      match bytes, hshort with
      | [], _ => decide
      | [_], _ => simp [radiusVendorHdrLen]
      | vendorType :: vendorLength :: rest, hshort =>
        exact absurd rfl (hshort vendorType vendorLength rest)
    have hnil : vendorHeaders msType bytes = [] := by
      match bytes, hshort with
      | [], _ => rw [vendorHeaders]; simp
      | [_], _ => rw [vendorHeaders]; simp
      | vendorType :: vendorLength :: rest, hshort =>
        exact absurd rfl (hshort vendorType vendorLength rest)
    rw [hnil]
    exact ⟨fun _ => ⟨.goOn, if_neg hlen, by simp⟩, by simp⟩

/-- What Microsoft's vendor attribute carries. -/
def msPayload (a : RadiusAttr) : Option (List Byte) :=
  if a.type = radiusAttrVendorSpecific ∧ 4 ≤ a.value.length ∧
      a.value.take 4 = radiusVendorIdMicrosoft then
    some (a.value.drop 4)
  else none

/-- The vendor attributes that the search for a type looks at in a message. -/
def soughtHeaders (msType : Byte) : List RadiusAttr → List (Byte × Byte)
  | [] => []
  | a :: as =>
    match msPayload a with
    | none => soughtHeaders msType as
    | some bytes =>
      if (vendorHeaders msType bytes).all fun h => h.1 ≠ msType then
        vendorHeaders msType bytes ++ soughtHeaders msType as
      else vendorHeaders msType bytes

/-- The search for a type meets no vendor attribute without a length, and where it finds one of the
    type this has its header. -/
def KeyReadable (msType : Byte) (as : List RadiusAttr) : Prop :=
  ∀ h ∈ soughtHeaders msType as, LengthOk msType h

theorem Holds.msAttrSearch_cons (h : Holds m hdr (pre ++ a :: post)) (msType : Byte)
    (allocated : Bool) :
    m.msAttrSearch msType allocated
        (attrPtrs m.addr (radiusHdrLen + (encodeAttrs pre).length) (a :: post)) =
      match msPayload a with
      | none => m.msAttrSearch msType allocated
          (attrPtrs m.addr (radiusHdrLen + (encodeAttrs (pre ++ [a])).length) post)
      | some bytes => (m.msAttrLoop msType allocated RadiusMsg.msAttrFuel (m.addr + ofNat 32
          (radiusHdrLen + (encodeAttrs pre).length + radiusAttrHdrLen + 4)) bytes.length).bind
            fun r => match r with
              | .goOn => m.msAttrSearch msType allocated
                  (attrPtrs m.addr (radiusHdrLen + (encodeAttrs (pre ++ [a])).length) post)
              | .done data => some data := by
  have ha := h.fits a (by simp)
  have hvalue := h.value
  rw [attrPtrs_behind, RadiusMsg.msAttrSearch, h.header]
  simp only [bind_eq_bind, bind_some]
  by_cases htype : a.type = radiusAttrVendorSpecific
  case neg =>
    have hnone : msPayload a = none := if_neg fun hall => htype hall.1
    rw [hnone, if_pos htype]
  rw [if_neg (not_not.mpr htype), valueLength_of_fits ha]
  simp only [bind_some]
  by_cases hshort : a.value.length < 4
  · have hnone : msPayload a = none := if_neg fun hall => absurd hall.2.1 (Nat.not_le.mpr hshort)
    rw [hnone, if_pos hshort]
  rw [if_neg hshort]
  have hsize := h.size
  have hlt : radiusHdrLen + (encodeAttrs pre).length + radiusAttrHdrLen < 2 ^ 32 := by
    have hused := h.used
    have hle := h.used_le
    simp only [encodeAttrs_append, encodeAttrs_cons, length_append,
      RadiusAttr.length_encode] at hused
    omega
  have hid : m.read (m.addr + ofNat 32
      (radiusHdrLen + (encodeAttrs pre).length + radiusAttrHdrLen)) 4 = some (a.value.take 4) := by
    rw [ptr_add, read_ptr hlt] at hvalue
    rw [read_ptr hlt]
    exact fetch_take hvalue (Nat.le_of_not_lt hshort)
  rw [ptr_add, hid, bind_some]
  by_cases hvendor : a.value.take 4 = radiusVendorIdMicrosoft
  case neg =>
    have hnone : msPayload a = none := if_neg fun hall => hvendor hall.2.2
    rw [hnone, if_pos hvendor]
  have hsome : msPayload a = some (a.value.drop 4) :=
    if_pos ⟨htype, Nat.le_of_not_lt hshort, hvendor⟩
  have hfour : (4 : Addr) = ofNat 32 4 := rfl
  rw [hsome, if_neg (not_not.mpr hvendor), hfour, ptr_add]
  simp only [length_drop] <;> rfl

theorem Holds.payload (h : Holds m hdr (pre ++ a :: post)) {bytes : List Byte}
    (ha : msPayload a = some bytes) :
    fetch m.buf (radiusHdrLen + (encodeAttrs pre).length + radiusAttrHdrLen + 4) bytes.length =
        some bytes ∧ bytes.length < RadiusMsg.msAttrFuel := by
  have hvalue := h.value
  have hfits : a.value.length ≤ radiusMaxAttrLen := h.fits a (by simp)
  unfold msPayload at ha
  split at ha
  · next hms =>
    obtain rfl := some.inj ha
    have hsize := h.size
    have hused := h.used
    have hle := h.used_le
    simp only [encodeAttrs_append, encodeAttrs_cons, length_append,
      RadiusAttr.length_encode] at hused
    rw [ptr_add, read_ptr (by omega)] at hvalue
    have hdrop := fetch_drop hvalue hms.2.1
    rw [length_drop]
    refine ⟨hdrop, ?_⟩
    simp only [radiusMaxAttrLen, radiusAttrHdrLen] at hfits
    simp only [RadiusMsg.msAttrFuel]
    omega
  · cases ha

/-- **The search** ends, and finds no negative length, exactly if the vendor attributes that it
    looks at have a length. -/
theorem Holds.msAttrSearch_isSome_iff (pre : List RadiusAttr) (h : Holds m hdr (pre ++ post))
    (msType : Byte) (allocated : Bool) : (m.msAttrSearch msType allocated
      (attrPtrs m.addr (radiusHdrLen + (encodeAttrs pre).length) post)).isSome ↔
        KeyReadable msType post := by
  induction post generalizing pre with
  | nil => exact iff_of_true rfl (by simp [KeyReadable, soughtHeaders])
  | cons a post ih =>
    have hnext := h
    rw [append_cons] at hnext
    rw [h.msAttrSearch_cons, KeyReadable, soughtHeaders]
    cases ha : msPayload a with
    | none => exact ih _ hnext
    | some bytes =>
      obtain ⟨hbytes, hfuel⟩ := h.payload ha
      have hsize := h.size
      obtain ⟨hsafe, hback⟩ := msAttrLoop_spec msType allocated hbytes (by omega) hfuel
      by_cases hok : ∀ h ∈ vendorHeaders msType bytes, LengthOk msType h
      · obtain ⟨r, hloop, hgoOn⟩ := hsafe hok
        simp only [hloop, bind_some]
        have hall : ((vendorHeaders msType bytes).all fun h => h.1 ≠ msType) = true ↔
            ∀ h ∈ vendorHeaders msType bytes, h.1 ≠ msType := by
          simp only [List.all_eq_true, decide_eq_true_eq]
        by_cases hnone : ∀ h ∈ vendorHeaders msType bytes, h.1 ≠ msType
        · -- the search goes on with the next attribute
          obtain rfl := hgoOn.mpr hnone
          rw [if_pos (hall.mpr hnone)]
          refine (ih _ hnext).trans ?_
          simp only [KeyReadable, forall_mem_append, and_iff_right hok]
        · rw [if_neg (mt hall.mp hnone)]
          cases r with
          | goOn => exact absurd (hgoOn.mp rfl) hnone
          | done data => exact iff_of_true rfl hok
      · have hstuck : m.msAttrLoop msType allocated RadiusMsg.msAttrFuel (m.addr + ofNat 32
            (radiusHdrLen + (encodeAttrs pre).length + radiusAttrHdrLen + 4)) bytes.length =
              none := by
          by_contra hsome
          exact hok (hback (isSome_iff_ne_none.mpr hsome))
        simp only [hstuck, bind_none, isSome_none, Bool.false_eq_true, false_iff]
        intro hall
        apply hok
        intro h hmem
        apply hall
        split
        · exact mem_append_left _ hmem
        · exact hmem

theorem Holds.getMsAttr_isSome_iff (h : Holds m hdr as) (msType : Byte) (allocated : Bool) :
    (m.radiusMsgGetMsAttr msType allocated).isSome ↔ KeyReadable msType as := by
  have hsearch := Holds.msAttrSearch_isSome_iff [] h msType allocated
  rwa [encodeAttrs_nil, length_nil, Nat.add_zero, ← h.attrs] at hsearch

theorem Holds.getMsKey_isSome_iff (h : Holds m hdr as) (md5 : List Byte → Buf md5MacLen)
    (msType : Byte) (authenticator : Buf md5MacLen) (secret : List Byte) (mem : Mem) :
    (m.getMsKey md5 msType authenticator secret mem).isSome ↔ KeyReadable msType as := by
  rw [← h.getMsAttr_isSome_iff msType (mem 0), RadiusMsg.getMsKey]
  cases hget : m.radiusMsgGetMsAttr msType (mem 0) with
  | none => simp
  | some found =>
    simp only [bind_eq_bind, bind_some, isSome_some, iff_true]
    cases found with
    | none => rfl
    | some key =>
      obtain ⟨r, hr, -⟩ := decryptMsKey_inside md5 secret authenticator key fun n => mem (n + 1)
      simp only [hr, isSome_some]

theorem Holds.getMsKeys_isSome_iff (h : Holds m hdr as) (md5 : List Byte → Buf md5MacLen)
    (authenticator : Buf md5MacLen) (secret : List Byte) {mem : Mem} (hmem : mem 0 = true) :
    (m.radiusMsgGetMsKeys md5 (some authenticator) secret mem).isSome ↔
      KeyReadable radiusVendorAttrMsMppeSendKey as ∧
        KeyReadable radiusVendorAttrMsMppeRecvKey as := by
  rw [← h.getMsKey_isSome_iff md5 _ authenticator secret fun n => mem (n + 1),
    ← h.getMsKey_isSome_iff md5 radiusVendorAttrMsMppeRecvKey authenticator secret
      fun n => mem (n + 4)]
  simp only [RadiusMsg.radiusMsgGetMsKeys, hmem, Bool.not_true, Bool.false_eq_true, if_false,
    bind_eq_bind, isSome_bind, isSome_some, any_true]
  cases m.getMsKey md5 radiusVendorAttrMsMppeSendKey authenticator secret fun n => mem (n + 1) with
  | none => simp
  | some send => simp

theorem Holds.getMsKeys_isSome (h : Holds m hdr as)
    (hkeys : KeyReadable radiusVendorAttrMsMppeSendKey as ∧
      KeyReadable radiusVendorAttrMsMppeRecvKey as)
    (md5 : List Byte → Buf md5MacLen) (sent : Option (Buf md5MacLen)) (secret : List Byte)
    (mem : Mem) : (m.radiusMsgGetMsKeys md5 sent secret mem).isSome := by
  cases sent with
  | none => rfl
  | some authenticator =>
    cases hmem : mem 0 with
    | true => exact (h.getMsKeys_isSome_iff md5 authenticator secret hmem).mpr hkeys
    | false => simp [RadiusMsg.radiusMsgGetMsKeys, hmem]

/-! ## Replies -/

theorem isSome_of_bind {α β : Type} {x : Option α} {f : α → Option β} (h : (x.bind f).isSome) :
    x.isSome := by
  cases x with
  | none => exact h
  | some a => rfl

theorem processReply_parsed (md5 : List Byte → Buf md5MacLen)
    (hmacMd5 : List Byte → List Byte → Buf md5MacLen) (secret : List Byte)
    (sent : Option (Buf md5MacLen)) {data : List Byte} {allocs : ReplyAllocs}
    (hparse : radiusMsgParse data allocs.addr allocs.parse allocs.grows = some (some m)) :
    processReply md5 hmacMd5 secret sent data allocs =
      (m.radiusMsgVerify md5 hmacMd5 secret sent).bind fun verified =>
        (verified.1.radiusMsgGetEap allocs.eap).bind fun _ =>
          (verified.1.radiusMsgGetMsKeys md5 sent secret allocs.keys).bind fun _ => some () := by
  rw [processReply, hparse]
  rfl

/-- **Replies are processed safely** exactly if they are not parsed, or their Message-Authenticator
    has its 16 bytes and the searches for the two keys meet vendor attributes with a length. -/
theorem processesSafely_iff (data : List Byte) :
    ProcessesSafely data ↔ ∀ hdr as, WellFormed data hdr as →
      AuthenticatorFits as ∧ KeyReadable radiusVendorAttrMsMppeSendKey as ∧
        KeyReadable radiusVendorAttrMsMppeRecvKey as := by
  constructor
  · intro hsafe hdr as hwell
    -- the allocations succeed, and a request is there
    let md5 : List Byte → Buf md5MacLen := fun _ => Buf.fill md5MacLen 0
    let hmacMd5 : List Byte → List Byte → Buf md5MacLen := fun _ _ => Buf.fill md5MacLen 0
    let sent := Buf.fill md5MacLen 0
    have hdone := hsafe md5 hmacMd5 [] (some sent)
      ⟨0, fun _ => true, fun _ => true, fun _ => true, fun _ => true⟩
    obtain ⟨r, hparse, hparsed, haccepts⟩ :=
      radiusMsgParse_spec data 0 (fun _ => true) (fun _ => true)
    obtain ⟨p, rfl⟩ := Option.isSome_iff_exists.mp (haccepts (fun _ => rfl) (fun _ => rfl)
      ⟨hdr, as, hwell⟩)
    obtain ⟨hdr', as', hwell', hp, hwhole⟩ := hparsed p rfl
    obtain ⟨rfl, rfl⟩ := hwell.unique hwell'
    rw [processReply_parsed md5 hmacMd5 [] (some sent) hparse] at hdone
    obtain ⟨hverified, hfits⟩ := hp.verify_isSome_iff hwhole md5 hmacMd5 [] sent
    have hauth : AuthenticatorFits as := hfits (isSome_of_bind hdone)
    obtain ⟨ok, hverify⟩ := hverified hauth
    rw [hverify, Option.bind_some, hp.getEap, Option.bind_some] at hdone
    exact ⟨hauth, (hp.getMsKeys_isSome_iff md5 sent [] rfl).mp (isSome_of_bind hdone)⟩
  · intro hcond md5 hmacMd5 secret sent allocs
    obtain ⟨r, hparse, hparsed, -⟩ := radiusMsgParse_spec data allocs.addr allocs.parse allocs.grows
    cases r with
    | none =>
      rw [processReply, hparse]
      rfl
    | some p =>
      obtain ⟨hdr, as, hwell, hp, hwhole⟩ := hparsed p rfl
      obtain ⟨hfits, hkeys⟩ := hcond hdr as hwell
      have hverify : ∃ ok, p.radiusMsgVerify md5 hmacMd5 secret sent = some (p, ok) := by
        cases sent with
        | none => exact ⟨false, rfl⟩
        | some sent => exact (hp.verify_isSome_iff hwhole md5 hmacMd5 secret sent).1 hfits
      obtain ⟨ok, hverify⟩ := hverify
      obtain ⟨keys, hmsKeys⟩ := Option.isSome_iff_exists.mp
        (hp.getMsKeys_isSome hkeys md5 sent secret allocs.keys)
      rw [processReply_parsed md5 hmacMd5 secret sent hparse, hverify, Option.bind_some, hp.getEap,
        Option.bind_some, hmsKeys]
      rfl

/-- An Access-Accept that ends with the header of a Message-Authenticator is parsed. -/
theorem not_processesSafely_short :
    ¬ ∀ data : List Byte, data.length ≤ 2999 → ProcessesSafely data := by
  intro hall
  have hdone := hall ([2, 1, 0, 22] ++ List.replicate 16 0 ++ [80, 2]) (by decide)
    (fun _ => Buf.fill md5MacLen 0) (fun _ _ => Buf.fill md5MacLen 0) []
    (some (Buf.fill md5MacLen 0)) ⟨0, fun _ => true, fun _ => true, fun _ => true, fun _ => true⟩
  exact absurd hdone (by decide)

end RalinkSdk.Radius
