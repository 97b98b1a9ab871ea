import RalinkSdk.Mat.Pppoe

/-!
# The walk over the tags of a discovery packet

Both handlers count down a 16-bit number of bytes left by the length of each tag, and go on until it
is 0.  A tag that is longer than what is left makes the number wrap, and the next tag is read behind
the payload.
-/

namespace RalinkSdk.Mat

open List Option Nat
open IgmpSnoop (MacAddr FrameByte)
open Lib
open BitVec (ofNat ofNat_toNat setWidth_eq toNat_ofNat)

/-! ## Packets -/

/-- The fields of a PPPoE header in front of the length. -/
structure PppoeHdr where
  verType : FrameByte
  code : FrameByte
  sesID : BitVec 16
  deriving DecidableEq

def PppoeHdr.bytes (h : PppoeHdr) (payloadLen : BitVec 16) : List FrameByte :=
  [h.verType, h.code] ++ (be16 h.sesID ++ be16 payloadLen)

def pppoePacket (h : PppoeHdr) (payload : List FrameByte) : List FrameByte :=
  h.bytes (ofNat 16 payload.length) ++ payload

/-- The tags come to an end with the payload, or the first bytes of a tag that is looked for and is
    not empty come behind some of them. -/
def TagsEnd (findTag : BitVec 16) (payload : List FrameByte) : Prop :=
  (∃ as : List Attr, (∀ a ∈ as, a.Fits) ∧ payload = encodeAll as) ∨
    ∃ (as : List Attr) (len : BitVec 16) (rest : List FrameByte), (∀ a ∈ as, a.Fits) ∧ 0 < len ∧
      payload = encodeAll as ++ (be16 findTag ++ (be16 len ++ rest))

/-- **The search of a handler stays inside the payload**: if it is made, the bytes up to the end of
    the payload suffice for its result, which is the one it has in the whole memory. -/
def SearchStaysInside (findTagOf : FrameByte → Option (BitVec 16)) (mem : List FrameByte)
    (pLayerHdr : Nat) : Prop :=
  ∀ findTag payloadLen, mem[pLayerHdr]? = some 0x11 →
    mem[pLayerHdr + 1]?.bind findTagOf = some findTag →
      getNtohs mem (pLayerHdr + 4) = some payloadLen →
        ∃ found,
          tagSearch (mem.take (pLayerHdr + 6 + payloadLen.toNat)) pLayerHdr findTag payloadLen =
            some found ∧
          tagSearch mem pLayerHdr findTag payloadLen = some found

/-! ## Reading -/

variable {pre suf mem behind : List FrameByte} {findTag : BitVec 16} {fuel p : Nat}

theorem getNtohs_be16 (hp : pre.length = p) (x : BitVec 16) (suf : List FrameByte) :
    getNtohs (pre ++ (be16 x ++ suf)) p = some x := by
  rw [getNtohs, fetch_append hp (length_be16 x), map_some]
  exact congrArg some (append_be16 x)

theorem getNtohs_isSome_iff : (getNtohs mem p).isSome ↔ p + 2 ≤ mem.length := by
  rw [getNtohs, isSome_map, fetch_isSome_iff]

theorem getNtohs_eq_none (h : mem.length < p + 2) : getNtohs mem p = none := by
  rw [← not_isSome_iff_eq_none, getNtohs_isSome_iff]
  omega

variable {n : Nat}

theorem fetch_append_of_some {bytes : List FrameByte} (h : fetch mem p n = some bytes)
    (behind : List FrameByte) : fetch (mem ++ behind) p n = some bytes := by
  obtain ⟨hroom, rfl⟩ := fetch_eq_some_iff.mp h
  rw [fetch_eq_some_iff, length_append]
  refine ⟨by omega, ?_⟩
  rw [drop_append_of_le_length (by omega), take_append_of_le_length]
  rw [length_drop]
  omega

theorem getNtohs_append_of_some {x : BitVec 16} (h : getNtohs mem p = some x)
    (behind : List FrameByte) : getNtohs (mem ++ behind) p = some x := by
  obtain ⟨bytes, hbytes, hx⟩ := map_eq_some_iff.mp h
  rw [getNtohs, fetch_append_of_some hbytes behind, map_some, hx]

/-! ## The loop -/

theorem tagLoop_append {pData : Nat} {leftLen tagLen : BitVec 16} {found : Option Nat × BitVec 16}
    (h : tagLoop mem findTag fuel pData leftLen tagLen = some found) (behind : List FrameByte)
    {fuel' : Nat} (hfuel : fuel ≤ fuel') :
    tagLoop (mem ++ behind) findTag fuel' pData leftLen tagLen = some found := by
  induction fuel generalizing pData leftLen tagLen fuel' with
  | zero => cases h
  | succ fuel ih =>
    obtain ⟨n, rfl⟩ : ∃ n, fuel' = n + 1 := ⟨fuel' - 1, by omega⟩
    rw [tagLoop] at h ⊢
    by_cases hleft : leftLen = 0
    · rwa [if_pos hleft] at h ⊢
    rw [if_neg hleft] at h ⊢
    obtain ⟨tagID, hid, h⟩ := bind_eq_some_iff.mp h
    obtain ⟨len, hlen, h⟩ := bind_eq_some_iff.mp h
    rw [getNtohs_append_of_some hid, getNtohs_append_of_some hlen]
    simp only [bind_eq_bind, bind_some]
    by_cases hfound : tagID = findTag ∧ 0 < len
    · rwa [if_pos hfound] at h ⊢
    · rw [if_neg hfound] at h ⊢
      exact ih h (le_of_succ_le_succ hfuel)

theorem tagLoop_done (mem : List FrameByte) (findTag : BitVec 16) (fuel pData : Nat)
    (tagLen : BitVec 16) :
    tagLoop mem findTag (fuel + 1) pData (ofNat 16 0) tagLen = some (none, tagLen) :=
  if_pos rfl

theorem tagLoop_header {leftLen : BitVec 16} (hleft : leftLen ≠ 0) (hp : pre.length = p)
    (findTag tagID len : BitVec 16) (rest : List FrameByte) (tagLen : BitVec 16) (fuel : Nat) :
    tagLoop (pre ++ (be16 tagID ++ (be16 len ++ rest))) findTag (fuel + 1) p leftLen tagLen =
      if tagID = findTag ∧ 0 < len then some (some (p + 4), len)
      else tagLoop (pre ++ (be16 tagID ++ (be16 len ++ rest))) findTag fuel
        (p + (len.toNat + 4)) (leftLen - (len + 4)) len := by
  have hid := getNtohs_be16 hp tagID (be16 len ++ rest)
  have hlen : getNtohs (pre ++ (be16 tagID ++ (be16 len ++ rest))) (p + 2) = some len := by
    have hp' : (pre ++ be16 tagID).length = p + 2 := by rw [length_append, hp, length_be16]
    have hread := getNtohs_be16 hp' len rest
    rwa [append_assoc] at hread
  rw [tagLoop, if_neg hleft, hid, hlen]
  rfl

theorem encode_append (a : Attr) (rest : List FrameByte) : a.encode ++ rest =
      be16 a.type ++ (be16 (ofNat 16 a.value.length) ++ (a.value ++ rest)) := by
  simp only [Attr.encode, append_assoc]

/-- The tag is the one that is looked for, and not empty. -/
def IsFound (findTag : BitVec 16) (a : Attr) : Prop := a.type = findTag ∧ a.value ≠ []

theorem isFound_iff {a : Attr} (hfit : a.Fits) :
    IsFound findTag a ↔ a.type = findTag ∧ 0 < ofNat 16 a.value.length := by
  have hlen : (ofNat 16 a.value.length).toNat = a.value.length :=
    (toNat_ofNat _ _).trans (mod_eq_of_lt hfit)
  rw [IsFound, BitVec.lt_def, hlen, ← length_pos_iff]
  rfl

theorem left_sub_tag (a : Attr) (n : Nat) :
    ofNat 16 (a.encode.length + n) - (ofNat 16 a.value.length + 4) =
      ofNat 16 n := by
  rw [Attr.length_encode]
  bv_omega

theorem ofNat_left_ne_zero (hpos : 0 < n) (hlt : n < 2 ^ 16) : ofNat 16 n ≠ 0 := by
  intro h
  have hn := congrArg BitVec.toNat h
  rw [toNat_ofNat, mod_eq_of_lt hlt] at hn
  exact absurd hn (Nat.ne_of_gt hpos)

/-- **One tag**: the loop stops at one that it looks for, and goes on behind any other. -/
theorem tagLoop_tag {a : Attr} (hfit : a.Fits) (hlt : a.encode.length + n < 2 ^ 16)
    (hp : pre.length = p) (findTag : BitVec 16) (rest : List FrameByte) (tagLen : BitVec 16)
    (fuel : Nat) : (IsFound findTag a →
      tagLoop (pre ++ (a.encode ++ rest)) findTag (fuel + 1) p
          (ofNat 16 (a.encode.length + n)) tagLen =
        some (some (p + 4), ofNat 16 a.value.length)) ∧
    (¬ IsFound findTag a →
      tagLoop (pre ++ (a.encode ++ rest)) findTag (fuel + 1) p
          (ofNat 16 (a.encode.length + n)) tagLen =
        tagLoop (pre ++ (a.encode ++ rest)) findTag fuel (p + a.encode.length)
          (ofNat 16 n) (ofNat 16 a.value.length)) := by
  have hpos : 0 < a.encode.length + n := by
    rw [Attr.length_encode]
    omega
  have hlen : (ofNat 16 a.value.length).toNat = a.value.length :=
    (toNat_ofNat _ _).trans (mod_eq_of_lt hfit)
  have hturn := tagLoop_header (ofNat_left_ne_zero hpos hlt) hp findTag a.type
    (ofNat 16 a.value.length) (a.value ++ rest) tagLen fuel
  rw [← encode_append, left_sub_tag, hlen, Nat.add_comm a.value.length 4,
    ← Attr.length_encode] at hturn
  rw [hturn]
  constructor
  · exact fun h => if_pos ((isFound_iff hfit).mp h)
  · exact fun h => if_neg fun hf => h ((isFound_iff hfit).mpr hf)

/-- **Tags that are not looked for**: the loop goes on behind them. -/
theorem tagLoop_encodeAll {as : List Attr} (hfit : ∀ a ∈ as, a.Fits)
    (hother : ∀ a ∈ as, ¬ IsFound findTag a) (hlt : (encodeAll as).length + n < 2 ^ 16)
    (hp : pre.length = p) (rest : List FrameByte) (tagLen : BitVec 16) (fuel : Nat) :
    ∃ tagLen', tagLoop (pre ++ (encodeAll as ++ rest)) findTag (as.length + fuel) p
        (ofNat 16 ((encodeAll as).length + n)) tagLen =
      tagLoop (pre ++ (encodeAll as ++ rest)) findTag fuel (p + (encodeAll as).length)
        (ofNat 16 n) tagLen' := by
  induction as generalizing pre p tagLen with
  | nil =>
    refine ⟨tagLen, ?_⟩
    simp only [encodeAll_nil, length_nil, Nat.zero_add, Nat.add_zero]
  | cons a as ih =>
    rw [encodeAll_cons, length_append] at hlt
    have hp' : (pre ++ a.encode).length = p + a.encode.length := by
      rw [length_append, hp]
    obtain ⟨tagLen', hrest⟩ := ih (fun b hb => hfit b (mem_cons_of_mem a hb))
      (fun b hb => hother b (mem_cons_of_mem a hb)) (by omega) hp'
      (ofNat 16 a.value.length)
    refine ⟨tagLen', ?_⟩
    have hstep := (tagLoop_tag (hfit a mem_cons_self) (n := (encodeAll as).length + n)
      (by omega) hp findTag (encodeAll as ++ rest) tagLen (as.length + fuel)).2
      (hother a mem_cons_self)
    rw [append_assoc] at hrest
    rw [encodeAll_cons, append_assoc, length_cons, length_append,
      Nat.add_right_comm as.length 1 fuel, Nat.add_assoc a.encode.length, hstep, hrest,
      Nat.add_assoc p]

theorem tagLoop_isSome_of_behind {as : List Attr} (hfit : ∀ a ∈ as, a.Fits)
    (hlt : (encodeAll as).length + n < 2 ^ 16) (hp : pre.length = p) (rest : List FrameByte)
    (tagLen : BitVec 16) (fuel : Nat)
    (hbehind : ∀ tagLen', (tagLoop (pre ++ (encodeAll as ++ rest)) findTag fuel
      (p + (encodeAll as).length) (ofNat 16 n) tagLen').isSome) :
    (tagLoop (pre ++ (encodeAll as ++ rest)) findTag (as.length + fuel) p
      (ofNat 16 ((encodeAll as).length + n)) tagLen).isSome := by
  induction as generalizing pre p tagLen with
  | nil =>
    have h := hbehind tagLen
    simpa only [encodeAll_nil, length_nil, Nat.zero_add, Nat.add_zero] using h
  | cons a as ih =>
    rw [encodeAll_cons, length_append] at hlt
    have hp' : (pre ++ a.encode).length = p + a.encode.length := by
      rw [length_append, hp]
    have hstep := tagLoop_tag (hfit a mem_cons_self) (n := (encodeAll as).length + n)
      (by omega) hp findTag (encodeAll as ++ rest) tagLen (as.length + fuel)
    rw [encodeAll_cons, append_assoc, length_cons, length_append,
      Nat.add_right_comm as.length 1 fuel, Nat.add_assoc a.encode.length]
    by_cases hfound : IsFound findTag a
    · rw [hstep.1 hfound]
      rfl
    · rw [hstep.2 hfound]
      have hrest := ih (fun b hb => hfit b (mem_cons_of_mem a hb)) (by omega) hp'
        (ofNat 16 a.value.length)
      rw [append_assoc] at hrest
      apply hrest
      intro tagLen'
      have h := hbehind tagLen'
      rwa [encodeAll_cons, length_append, append_assoc, ← Nat.add_assoc p] at h

/-! ## The end of the tags -/

theorem TagsEnd.cons {a : Attr} (hfit : a.Fits) {rest : List FrameByte} (h : TagsEnd findTag rest) :
    TagsEnd findTag (a.encode ++ rest) := by
  rcases h with ⟨as, has, rfl⟩ | ⟨as, len, rest, has, hpos, rfl⟩
  · exact .inl ⟨a :: as, forall_mem_cons.mpr ⟨hfit, has⟩, rfl⟩
  · refine .inr ⟨a :: as, len, rest, forall_mem_cons.mpr ⟨hfit, has⟩, hpos, ?_⟩
    rw [encodeAll_cons, append_assoc]

theorem encodeAll_length_le (as : List Attr) : as.length ≤ (encodeAll as).length := by
  induction as with
  | nil => exact Nat.le_refl 0
  | cons a as ih =>
    rw [encodeAll_cons, length_append, length_cons, Attr.length_encode]
    omega

variable {payload : List FrameByte}

theorem tagLoop_isSome_of_tagsEnd (hlt : payload.length < 2 ^ 16)
    (h : TagsEnd findTag payload) (hp : pre.length = p) (tagLen : BitVec 16)
    (hfuel : payload.length < fuel) :
    (tagLoop (pre ++ payload) findTag fuel p (ofNat 16 payload.length) tagLen).isSome := by
  rcases h with ⟨as, hfit, rfl⟩ | ⟨as, len, rest, hfit, hpos, rfl⟩
  · have hle := encodeAll_length_le as
    obtain ⟨k, rfl⟩ : ∃ k, fuel = as.length + (k + 1) := ⟨fuel - as.length - 1, by omega⟩
    have hloop : (tagLoop (pre ++ (encodeAll as ++ [])) findTag (as.length + (k + 1)) p
        (ofNat 16 ((encodeAll as).length + 0)) tagLen).isSome :=
      tagLoop_isSome_of_behind hfit hlt hp [] tagLen (k + 1) fun tagLen' => (by
        rw [tagLoop_done]
        rfl)
    simpa only [append_nil, Nat.add_zero] using hloop
  · have hle := encodeAll_length_le as
    have hlen : (be16 findTag ++ (be16 len ++ rest)).length = 4 + rest.length := by
      simp only [length_append, length_be16]
      omega
    rw [length_append, hlen] at hlt hfuel
    obtain ⟨k, rfl⟩ : ∃ k, fuel = as.length + (k + 1) := ⟨fuel - as.length - 1, by omega⟩
    rw [length_append, hlen]
    apply tagLoop_isSome_of_behind hfit hlt hp
    intro tagLen'
    have hp' : (pre ++ encodeAll as).length = p + (encodeAll as).length := by
      rw [length_append, hp]
    have hturn := tagLoop_header (ofNat_left_ne_zero (n := 4 + rest.length) (by omega) (by omega))
      hp' findTag findTag len rest tagLen' k
    rw [append_assoc] at hturn
    rw [hturn, if_pos ⟨rfl, hpos⟩]
    rfl

theorem exists_header {bytes : List FrameByte} (h : 4 ≤ bytes.length) :
    ∃ (tagID len : BitVec 16) (rest : List FrameByte),
      bytes = be16 tagID ++ (be16 len ++ rest) := by
  have hfour : (bytes.take 4).length = 4 := by rw [length_take, Nat.min_eq_left h]
  obtain ⟨a, b, c, d, hfront⟩ := length_eq_four.mp hfour
  refine ⟨a ++ b, c ++ d, bytes.drop 4, ?_⟩
  calc bytes = [a, b, c, d] ++ bytes.drop 4 := by rw [← hfront, take_append_drop]
    _ = be16 (a ++ b) ++ (be16 (c ++ d) ++ bytes.drop 4) := by
      rw [be16_append, be16_append]
      rfl

theorem tagsEnd_of_tagLoop (hlt : payload.length < 2 ^ 16)
    (hp : pre.length = p) {tagLen : BitVec 16} {found : Option Nat × BitVec 16}
    (h : tagLoop (pre ++ payload) findTag fuel p (ofNat 16 payload.length) tagLen =
      some found) : TagsEnd findTag payload := by
  induction fuel generalizing pre p payload tagLen with
  | zero => cases h
  | succ fuel ih =>
    by_cases hnil : payload = []
    · exact .inl ⟨[], by simp, hnil⟩
    have hpos := length_pos_of_ne_nil hnil
    have hleft := ofNat_left_ne_zero hpos hlt
    -- four bytes have been read
    have hfour : 4 ≤ payload.length := by
      rw [tagLoop, if_neg hleft] at h
      obtain ⟨tagID, hid, h⟩ := bind_eq_some_iff.mp h
      obtain ⟨len, hlen, -⟩ := bind_eq_some_iff.mp h
      have hroom := getNtohs_isSome_iff.mp (isSome_of_eq_some hlen)
      rw [length_append, hp] at hroom
      omega
    obtain ⟨tagID, len, rest, rfl⟩ := exists_header hfour
    have hlength : (be16 tagID ++ (be16 len ++ rest)).length = 4 + rest.length := by
      simp only [length_append, length_be16]
      omega
    rw [tagLoop_header hleft hp] at h
    by_cases hfound : tagID = findTag ∧ 0 < len
    · obtain ⟨rfl, hlen⟩ := hfound
      exact .inr ⟨[], len, rest, by simp, hlen, rfl⟩
    rw [if_neg hfound] at h
    by_cases hlong : len.toNat ≤ rest.length
    · -- a whole tag
      have hvalue : (rest.take len.toNat).length = len.toNat := by
        rw [length_take, Nat.min_eq_left hlong]
      let a : Attr := ⟨tagID, rest.take len.toNat⟩
      have hfit : a.Fits := by
        show (rest.take len.toNat).length < 2 ^ 16
        rw [hvalue]
        exact len.isLt
      have hsplit : be16 tagID ++ (be16 len ++ rest) = a.encode ++ rest.drop len.toNat := by
        rw [encode_append]
        show _ = be16 tagID ++ (be16 (ofNat 16 (rest.take len.toNat).length) ++
          (rest.take len.toNat ++ rest.drop len.toNat))
        rw [hvalue, ofNat_toNat, setWidth_eq, take_append_drop]
      have hvalueLen : a.value.length = len.toNat := hvalue
      have hcount : (be16 tagID ++ (be16 len ++ rest)).length =
          a.encode.length + (rest.drop len.toNat).length := by rw [hsplit, length_append]
      have hleft' : ofNat 16 (be16 tagID ++ (be16 len ++ rest)).length - (len + 4) =
          ofNat 16 (rest.drop len.toNat).length := by
        have hsub := left_sub_tag a (rest.drop len.toNat).length
        rwa [hvalueLen, ofNat_toNat, setWidth_eq, ← hcount] at hsub
      have hp' : (pre ++ a.encode).length = p + (len.toNat + 4) := by
        rw [length_append, hp, Attr.length_encode, hvalueLen, Nat.add_comm 4]
      rw [hleft', hsplit, ← append_assoc] at h
      rw [hsplit]
      have hrest : TagsEnd findTag (rest.drop len.toNat) := ih (by omega) hp' h
      exact hrest.cons hfit
    · -- the number of bytes left wraps, and the next tag is behind the payload
      have hwrapped : ofNat 16 (be16 tagID ++ (be16 len ++ rest)).length - (len + 4) ≠ 0 := by
        rw [hlength] at hlt ⊢
        bv_omega
      cases fuel with
      | zero => cases h
      | succ fuel =>
        have hbehind : getNtohs (pre ++ (be16 tagID ++ (be16 len ++ rest)))
            (p + (len.toNat + 4)) = none := by
          apply getNtohs_eq_none
          rw [length_append, hlength, hp]
          omega
        rw [tagLoop, if_neg hwrapped, hbehind] at h
        cases h

/-- **The loop** ends within the payload exactly if the tags do. -/
theorem tagLoop_isSome_iff (hlt : payload.length < 2 ^ 16)
    (hp : pre.length = p) (tagLen : BitVec 16) (hfuel : payload.length < fuel) :
    (tagLoop (pre ++ payload) findTag fuel p (ofNat 16 payload.length) tagLen).isSome ↔
      TagsEnd findTag payload := by
  constructor
  · intro h
    obtain ⟨found, hfound⟩ := isSome_iff_exists.mp h
    exact tagsEnd_of_tagLoop hlt hp hfound
  · exact fun h => tagLoop_isSome_of_tagsEnd hlt h hp tagLen hfuel

/-! ## The handlers -/

@[simp] theorem PppoeHdr.length_bytes (h : PppoeHdr) (payloadLen : BitVec 16) :
    (h.bytes payloadLen).length = 6 := rfl

section

variable {link : List FrameByte} (hp : link.length = p) (h : PppoeHdr) (payloadLen : BitVec 16)
  (rest : List FrameByte)

include hp

theorem getElem?_verType : (link ++ (h.bytes payloadLen ++ rest))[p]? = some h.verType := by
  rw [getElem?_append_right hp.le, hp, Nat.sub_self]
  rfl

theorem getElem?_code : (link ++ (h.bytes payloadLen ++ rest))[p + 1]? = some h.code := by
  rw [getElem?_append_right (by omega), hp, Nat.add_sub_cancel_left]
  rfl

theorem getNtohs_sesID :
    getNtohs (link ++ (h.bytes payloadLen ++ rest)) (p + 2) = some h.sesID := by
  have hpre : (link ++ [h.verType, h.code]).length = p + 2 := by
    rw [length_append, hp]
    rfl
  have hread := getNtohs_be16 hpre h.sesID (be16 payloadLen ++ rest)
  simpa only [PppoeHdr.bytes, append_assoc] using hread

theorem getNtohs_payloadLen :
    getNtohs (link ++ (h.bytes payloadLen ++ rest)) (p + 4) = some payloadLen := by
  have hpre : (link ++ ([h.verType, h.code] ++ be16 h.sesID)).length = p + 4 := by
    rw [length_append, hp]
    rfl
  have hread := getNtohs_be16 hpre payloadLen rest
  simpa only [PppoeHdr.bytes, append_assoc] using hread

end

/-- **The search of a handler** stays inside the payload exactly if the tags end there. -/
theorem searchStaysInside_iff {findTagOf : FrameByte → Option (BitVec 16)} {link : List FrameByte}
    {h : PppoeHdr} (hlt : payload.length < 2 ^ 16) (behind : List FrameByte) :
    SearchStaysInside findTagOf (link ++ (pppoePacket h payload ++ behind)) link.length ↔
      ∀ findTag, h.verType = 0x11 → findTagOf h.code = some findTag → TagsEnd findTag payload := by
  set payloadLen := ofNat 16 payload.length with hlen
  have hmem : link ++ (pppoePacket h payload ++ behind) =
      link ++ (h.bytes payloadLen ++ (payload ++ behind)) := by
    rw [pppoePacket, append_assoc]
  have hpre : (link ++ h.bytes payloadLen).length = link.length + 6 := by
    rw [length_append, PppoeHdr.length_bytes]
  have htoNat : payloadLen.toNat = payload.length :=
    (toNat_ofNat _ _).trans (mod_eq_of_lt hlt)
  have htake : (link ++ (h.bytes payloadLen ++ (payload ++ behind))).take
      (link.length + 6 + payloadLen.toNat) = link ++ h.bytes payloadLen ++ payload := by
    rw [htoNat, ← append_assoc, ← append_assoc]
    apply take_left'
    rw [length_append, hpre]
  have hsearch : ∀ findTag, (tagSearch (link ++ h.bytes payloadLen ++ payload) link.length findTag
      payloadLen).isSome ↔ TagsEnd findTag payload := fun findTag =>
    tagLoop_isSome_iff hlt hpre 0 (by rw [length_append]; omega)
  -- what the search finds in the payload it finds in the whole memory
  have hwhole : ∀ findTag found, tagSearch (link ++ h.bytes payloadLen ++ payload) link.length
      findTag payloadLen = some found →
        tagSearch (link ++ (h.bytes payloadLen ++ (payload ++ behind))) link.length findTag
          payloadLen = some found := by
    intro findTag found hfound
    have hmem' : link ++ (h.bytes payloadLen ++ (payload ++ behind)) =
        link ++ h.bytes payloadLen ++ payload ++ behind := by simp only [append_assoc]
    rw [hmem']
    exact tagLoop_append hfound behind (succ_le_succ (by
      simp only [length_append]
      omega))
  rw [hmem]
  constructor
  · intro hinside findTag hver hcode
    obtain ⟨found, hfound, -⟩ := hinside findTag payloadLen
      (by rw [getElem?_verType rfl, hver])
      (by rw [getElem?_code rfl, bind_some, hcode]) (getNtohs_payloadLen rfl h payloadLen _)
    rw [htake] at hfound
    exact (hsearch findTag).mp (isSome_of_eq_some hfound)
  · intro hends findTag payloadLen' hver hcode hlen'
    rw [getElem?_verType rfl, some.injEq] at hver
    rw [getElem?_code rfl, bind_some] at hcode
    rw [getNtohs_payloadLen rfl, some.injEq] at hlen'
    subst hlen'
    obtain ⟨found, hfound⟩ :=
      isSome_iff_exists.mp ((hsearch findTag).mpr (hends findTag hver hcode))
    rw [htake]
    exact ⟨found, hfound, hwhole findTag found hfound⟩

/-- **The walks over the tags**: those of the two handlers end within the payload exactly if it
    consists of whole tags up to its end, or up to the header of a tag that is looked for and is not
    empty. -/
theorem tagSearches_stayInside_iff (link : List FrameByte) (h : PppoeHdr)
    (payload behind : List FrameByte) (hlt : payload.length < 2 ^ 16) :
    (SearchStaysInside rxFindTag (link ++ (pppoePacket h payload ++ behind)) link.length ↔
      ∀ findTag, h.verType = 0x11 → rxFindTag h.code = some findTag → TagsEnd findTag payload) ∧
    (SearchStaysInside txFindTag (link ++ (pppoePacket h payload ++ behind)) link.length ↔
      ∀ findTag, h.verType = 0x11 → txFindTag h.code = some findTag → TagsEnd findTag payload) :=
  ⟨searchStaysInside_iff hlt behind, searchStaysInside_iff hlt behind⟩

/-- A PADI with a Service-Name tag that is said to be one byte longer than it is. -/
def longTag : List FrameByte := [0x01, 0x01, 0x00, 0x01]

/-- The search in a PADI with no tags stays inside. -/
theorem tagSearches_stayInside_padi :
    SearchStaysInside txFindTag ([] ++ (pppoePacket ⟨0x11, pppoeCodePadi, 0⟩ [] ++ [])) 0 :=
  (tagSearches_stayInside_iff [] ⟨0x11, pppoeCodePadi, 0⟩ [] [] (by decide)).2.mpr fun _ _ _ =>
    Or.inl ⟨[], by simp, rfl⟩

/-- The number of bytes left wraps behind the tag that is too long. -/
theorem not_searchStaysInside_longTag :
    ¬ SearchStaysInside txFindTag (pppoePacket ⟨0x11, pppoeCodePadi, 0⟩ longTag) 0 := by
  intro hinside
  obtain ⟨found, hfound, -⟩ := hinside pppoeTagIdHostUniq 4 rfl rfl rfl
  have hnone : tagSearch ((pppoePacket ⟨0x11, pppoeCodePadi, 0⟩ longTag).take
      (0 + 6 + (4#16).toNat)) 0 pppoeTagIdHostUniq 4 = none := by decide
  exact Option.some_ne_none found (hfound.symm.trans hnone)

end RalinkSdk.Mat
