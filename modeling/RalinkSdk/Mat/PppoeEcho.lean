import RalinkSdk.Mat.PppoeTags

/-!
# The tag that is put in and taken out

A station that sends no tag of its own gets one from the driver, at the end of its tags, and the
answer brings it back somewhere among its own.  The driver takes it out again and passes the answer
on to the station that it names.

The end of the tags is counted from the length field, so that the new tag overwrites the last two
bytes in front of it.  On the way back four bytes too few are moved over the old tag.
-/

namespace RalinkSdk.Mat

open List Option Nat
open IgmpSnoop (MacAddr FrameByte)
open Lib
open scoped IgmpSnoop
open BitVec (ofNat toNat_ofNat)

/-! ## Packets -/

/-- A discovery packet: what stands in front of it, its header, its tags, what stands behind them up
    to the end of the packet and up to the end of the buffer. -/
structure DiscoveryPkt where
  link : List FrameByte
  hdr : PppoeHdr
  tags : List Attr
  trailing : List FrameByte
  room : List FrameByte
  cloned : Bool
  link_le : 12 ≤ link.length
  link_lt : link.length + 4 < 2 ^ 16
  verType_eq : hdr.verType = 0x11
  payload_lt : (encodeAll tags).length < 2 ^ 16
  size_lt : link.length + 6 + (encodeAll tags).length + trailing.length + room.length < 2 ^ 32

namespace DiscoveryPkt

variable (d : DiscoveryPkt)

/-- What the length field says. -/
def payloadLen : BitVec 16 := ofNat 16 (encodeAll d.tags).length

def skb : Skb where
  buf := d.link ++ (pppoePacket d.hdr (encodeAll d.tags) ++ (d.trailing ++ d.room))
  len := ofNat 32 (d.link.length + 6 + (encodeAll d.tags).length + d.trailing.length)
  cloned := d.cloned

theorem toNat_payloadLen : d.payloadLen.toNat = (encodeAll d.tags).length :=
  (toNat_ofNat _ _).trans (mod_eq_of_lt d.payload_lt)

theorem toNat_len : d.skb.len.toNat =
    d.link.length + 6 + (encodeAll d.tags).length + d.trailing.length := by
  have hlt := d.size_lt
  refine (toNat_ofNat _ _).trans (mod_eq_of_lt ?_)
  omega

theorem buf_eq : d.skb.buf =
    d.link ++ (d.hdr.bytes d.payloadLen ++ (encodeAll d.tags ++ (d.trailing ++ d.room))) := by
  simp only [skb, pppoePacket, payloadLen, append_assoc]

end DiscoveryPkt

/-- **The tag is put in**: the packet is sent with the tags it had and one that holds a MAC address,
    and with the length of all of them. -/
def TxInserts (t : PppoeTables) (d : DiscoveryPkt) (findTag : BitVec 16) (c : PppoeCall) : Prop :=
  ∃ (t' : PppoeTables) (pSkb sent : Skb) (uid : MacAddr) (rest : List FrameByte),
    matProtoPPPoEDisTx t d.skb d.link.length c = some (t', pSkb, some sent) ∧
      sent.buf =
        d.link ++ (pppoePacket d.hdr (encodeAll (d.tags ++ [⟨findTag, ofFn uid⟩])) ++ rest)

/-- **The tag is taken out**: the answer is passed on to the station, without the tag that stands
    between others, and shorter by as much. -/
def RxRemoves (t : PppoeTables) (d : DiscoveryPkt) (before after : List Attr) (mac : MacAddr)
    (c : PppoeCall) : Prop :=
  ∃ t' pSkb, matProtoPPPoEDisRx t d.skb d.link.length c = some (t', pSkb, some mac) ∧
    pSkb.len = d.skb.len - 10 ∧
      pSkb.buf.take pSkb.len.toNat =
        d.link ++ (pppoePacket d.hdr (encodeAll (before ++ after)) ++ d.trailing)

/-! ## Tx -/

section

variable {t t' : PppoeTables} {d : DiscoveryPkt} {c : PppoeCall} {pSkb sent : Skb}

theorem exists_insertTag
    (h : matProtoPPPoEDisTx t d.skb d.link.length c = some (t', pSkb, some sent)) :
    ∃ pModSkb x, pModSkb.buf = d.skb.buf ∧ pModSkb.len = d.skb.len ∧
      insertTag pModSkb (d.link.length + 4) d.payloadLen x = some sent := by
  have hoffset : (d.link.length + 4) % 2 ^ 16 = d.link.length + 4 := mod_eq_of_lt d.link_lt
  unfold matProtoPPPoEDisTx at h
  obtain ⟨pDstMac, -, h⟩ := bind_eq_some_iff.mp h
  obtain ⟨pSrcMac, -, h⟩ := bind_eq_some_iff.mp h
  obtain ⟨verType, -, h⟩ := bind_eq_some_iff.mp h
  split at h
  · cases h
  obtain ⟨code, -, h⟩ := bind_eq_some_iff.mp h
  split at h
  · cases h
  obtain ⟨sesID, -, h⟩ := bind_eq_some_iff.mp h
  obtain ⟨payloadLen, hlen, h⟩ := bind_eq_some_iff.mp h
  rw [d.buf_eq, getNtohs_payloadLen rfl, some.injEq] at hlen
  subst hlen
  obtain ⟨found, -, h⟩ := bind_eq_some_iff.mp h
  obtain ⟨tagInfo, -, h⟩ := bind_eq_some_iff.mp h
  dsimp only at h
  rw [hoffset] at h
  split at h
  · split at h
    · split at h
      · obtain ⟨pModSkb, hinsert, h⟩ := bind_eq_some_iff.mp h
        obtain rfl : pModSkb = sent := by
          rw [some.injEq, Prod.mk.injEq, Prod.mk.injEq, some.injEq] at h
          exact h.2.2
        exact ⟨{ d.skb with cloned := false }, _, rfl, rfl, hinsert⟩
      · cases h
    · obtain ⟨pModSkb, hinsert, h⟩ := bind_eq_some_iff.mp h
      obtain rfl : pModSkb = sent := by
        rw [some.injEq, Prod.mk.injEq, Prod.mk.injEq, some.injEq] at h
        exact h.2.2
      exact ⟨_, _, rfl, rfl, hinsert⟩
  · cases h

theorem encode_uidTag (x : UidMacMappingEntry) :
    (uidTag x).encode = be16 (uidTag x).type ++ ([0, 6] ++ ofFn x.uIDStr) := by
  have hlen : (ofFn x.uIDStr).length = 6 := length_ofFn
  have hval : (uidTag x).value = ofFn x.uIDStr := rfl
  rw [Attr.encode, append_assoc, hval, hlen]
  rfl

theorem getElem?_insertTag {pModSkb : Skb} {offset : Nat} {payloadLen : BitVec 16}
    {x : UidMacMappingEntry} (htail : offset + payloadLen.toNat < pModSkb.len.toNat)
    (h : insertTag pModSkb offset payloadLen x = some sent) :
    sent.buf[offset + 2 + payloadLen.toNat]? = some 0 := by
  unfold insertTag at h
  dsimp only at h
  rw [if_pos htail] at h
  split at h
  · cases h
  obtain ⟨buf, htag, h⟩ := bind_eq_some_iff.mp h
  obtain ⟨buf', hlen, h⟩ := bind_eq_some_iff.mp h
  obtain rfl := some.inj h
  have hlength : (uidTag x).encode.length = 10 := by
    rw [encode_uidTag, length_append, length_append, length_ofFn]
    rfl
  show buf'[_]? = _
  rw [getElem?_put hlen, if_neg (by rw [length_be16]; omega), getElem?_put htag,
    if_pos (by rw [hlength]; omega), encode_uidTag]
  have hsub : offset + 2 + payloadLen.toNat - (offset + payloadLen.toNat) = 2 := by omega
  rw [hsub]
  rfl

theorem be16_txFindTag {code : FrameByte} {findTag : BitVec 16}
    (h : txFindTag code = some findTag) : ∃ low, be16 findTag = [1, low] := by
  unfold txFindTag at h
  split at h
  · obtain rfl := some.inj h
    exact ⟨3, rfl⟩
  split at h
  · obtain rfl := some.inj h
    exact ⟨4, rfl⟩
  · cases h

/-- **No packet is sent with the new tag behind its own.** -/
theorem not_txInserts {findTag : BitVec 16} (hcode : txFindTag d.hdr.code = some findTag) :
    ¬ TxInserts t d findTag c := by
  rintro ⟨t', pSkb, sent, uid, rest, htx, hbuf⟩
  obtain ⟨pModSkb, x, -, hlen, hinsert⟩ := exists_insertTag htx
  have htail : d.link.length + 4 + d.payloadLen.toNat < pModSkb.len.toNat := by
    rw [hlen, d.toNat_len, d.toNat_payloadLen]
    omega
  have hzero := getElem?_insertTag htail hinsert
  -- where the new tag should begin
  obtain ⟨low, hlow⟩ := be16_txFindTag hcode
  have hone : sent.buf[d.link.length + 4 + 2 + d.payloadLen.toNat]? = some 1 := by
    let a : Attr := ⟨findTag, ofFn uid⟩
    let front := d.link ++ (d.hdr.bytes (ofNat 16 (encodeAll (d.tags ++ [a])).length) ++
      encodeAll d.tags)
    have hfront : front.length = d.link.length + 4 + 2 + d.payloadLen.toNat := by
      simp only [front, length_append, PppoeHdr.length_bytes, d.toNat_payloadLen]
      omega
    have hencode : a.encode = 1 :: ([low] ++ be16 (ofNat 16 a.value.length) ++ a.value) := by
      rw [Attr.encode, hlow]
      rfl
    have hsplit : sent.buf = front ++ (a.encode ++ rest) := by
      rw [hbuf]
      simp only [front, pppoePacket, encodeAll_append, encodeAll_cons, encodeAll_nil,
        append_nil, append_assoc, a]
    rw [hsplit, ← hfront, getElem?_append_right (Nat.le_refl _), Nat.sub_self, hencode]
    rfl
  rw [hzero] at hone
  cases some.inj hone

end

/-! ## Rx -/

theorem memmove_over {front tag rest room : List FrameByte} {dst src n : Nat}
    (hdst : front.length = dst) (hsrc : (front ++ tag).length = src) (hn : n ≤ rest.length) :
    memmove (front ++ (tag ++ (rest ++ room))) dst src n =
      some (front ++ (rest.take n ++ (tag ++ (rest ++ room)).drop n)) := by
  have hlen : (rest.take n).length = n := by rw [length_take, Nat.min_eq_left hn]
  have hfetch : fetch (front ++ (tag ++ (rest ++ room))) src n = some (rest.take n) := by
    have hsplit : front ++ (tag ++ (rest ++ room)) =
        (front ++ tag) ++ (rest.take n ++ (rest.drop n ++ room)) := by
      rw [← append_assoc (rest.take n), take_append_drop, append_assoc]
    rw [hsplit]
    exact fetch_append hsrc hlen
  rw [memmove, hfetch, bind_eq_bind, bind_some, put_eq_some_iff, hlen]
  constructor
  · simp only [length_append]
    omega
  · rw [take_left' hdst, ← hdst, drop_length_add_append]

theorem memmove_eq_none {buf : List FrameByte} {dst src n : Nat} (h : buf.length < src + n) :
    memmove buf dst src n = none := by
  have hfetch : fetch buf src n = none := by
    rw [← not_isSome_iff_eq_none, fetch_isSome_iff]
    omega
  rw [memmove, hfetch]
  rfl

/-- What lies in the place of the rest of the packet when its first bytes have been moved over the
    tag. -/
def shifted (tag rest : List FrameByte) : List FrameByte :=
  rest.take (rest.length - 4) ++ ((tag ++ rest).drop (rest.length - 4)).take 4

theorem shifted_eq_iff {tag rest : List FrameByte} : shifted tag rest = rest ↔
      ((tag ++ rest).drop (rest.length - 4)).take 4 = rest.drop (rest.length - 4) := by
  constructor
  · intro h
    exact append_cancel_left (h.trans (take_append_drop (rest.length - 4) rest).symm)
  · intro h
    rw [shifted, h, take_append_drop]

section

variable {link before rest room : List FrameByte} {h : PppoeHdr} {payloadLen : BitVec 16}
  {echo : Attr} {pSkb : Skb}
  (hlen : pSkb.len.toNat = link.length + 6 + before.length + 10 + rest.length)

include hlen

theorem toNat_tailLen : (pSkb.len - ofNat 32 (link.length + 6 + before.length + 4) -
      ofNat 32 (4 + 6)).toNat =
      if 4 ≤ rest.length then rest.length - 4 else 2 ^ 32 + rest.length - 4 := by
  simp only [BitVec.toNat_sub, toNat_ofNat, hlen]
  split
  · omega
  · omega

theorem removeTag_eq_none (hsize : pSkb.buf.length < 2 ^ 32) (hshort : rest.length < 4) :
    removeTag pSkb (link.length + 4) payloadLen (link.length + 6 + before.length + 4) 6 = none := by
  have htail := toNat_tailLen hlen
  rw [if_neg (Nat.not_le.mpr hshort)] at htail
  have hmoves : ¬ pSkb.len - ofNat 32 (link.length + 6 + before.length + 4) -
      ofNat 32 (4 + 6) = 0 := by
    intro hzero
    rw [hzero] at htail
    have h0 : (0 : BitVec 32).toNat = 0 := rfl
    omega
  have hbehind : memmove pSkb.buf (link.length + 6 + before.length + 4 - 4)
      (link.length + 6 + before.length + 4 + 6)
      (pSkb.len - ofNat 32 (link.length + 6 + before.length + 4) -
        ofNat 32 (4 + 6)).toNat = none := by
    apply memmove_eq_none
    rw [htail]
    omega
  unfold removeTag
  dsimp only
  rw [if_neg hmoves, hbehind]
  rfl

/-- **The removal** otherwise. -/
theorem removeTag_spec (hecho : echo.value.length = 6)
    (hbuf : pSkb.buf = link ++ (h.bytes payloadLen ++ (before ++ (echo.encode ++ (rest ++ room)))))
    (hlong : 4 ≤ rest.length) :
    ∃ pkt, removeTag pSkb (link.length + 4) payloadLen (link.length + 6 + before.length + 4) 6 =
        some pkt ∧ pkt.len = pSkb.len - 10 ∧
      pkt.buf.take pkt.len.toNat =
        link ++ (h.bytes (payloadLen - 10) ++ (before ++ shifted echo.encode rest)) := by
  have htail := toNat_tailLen hlen
  rw [if_pos hlong] at htail
  have htag : echo.encode.length = 10 := by rw [Attr.length_encode, hecho]
  have hfront : (link ++ (h.bytes payloadLen ++ before)).length =
      link.length + 6 + before.length := by
    simp only [length_append, PppoeHdr.length_bytes]
    omega
  have hbuf' : pSkb.buf =
      (link ++ (h.bytes payloadLen ++ before)) ++ (echo.encode ++ (rest ++ room)) := by
    simp only [hbuf, append_assoc]
  -- no move and the move of no bytes are the same
  have hmove : (if pSkb.len - ofNat 32 (link.length + 6 + before.length + 4) -
        ofNat 32 (4 + 6) = 0 then some pSkb.buf
      else memmove pSkb.buf (link.length + 6 + before.length + 4 - 4)
        (link.length + 6 + before.length + 4 + 6)
        (pSkb.len - ofNat 32 (link.length + 6 + before.length + 4) -
          ofNat 32 (4 + 6)).toNat) =
      some ((link ++ (h.bytes payloadLen ++ before)) ++ (rest.take (rest.length - 4) ++
        (echo.encode ++ (rest ++ room)).drop (rest.length - 4))) := by
    split
    · next hzero =>
      rw [hzero] at htail
      have hnone : rest.length - 4 = 0 := htail.symm
      rw [hnone, take_zero, drop_zero, nil_append, hbuf']
    · rw [htail, hbuf']
      refine memmove_over ?_ ?_ (sub_le _ _)
      · rw [hfront]
        omega
      · rw [length_append, hfront, htag]
  -- the length field
  have hfield : put ((link ++ (h.bytes payloadLen ++ before)) ++ (rest.take (rest.length - 4) ++
      (echo.encode ++ (rest ++ room)).drop (rest.length - 4))) (link.length + 4)
      (be16 (payloadLen - ofNat 16 (4 + 6))) =
      some ((link ++ (h.bytes (payloadLen - 10) ++ before)) ++ (rest.take (rest.length - 4) ++
        (echo.encode ++ (rest ++ room)).drop (rest.length - 4))) := by
    have hpre : (link ++ ([h.verType, h.code] ++ be16 h.sesID)).length = link.length + 4 := by
      rw [length_append]
      rfl
    have hput : put ((link ++ ([h.verType, h.code] ++ be16 h.sesID)) ++ (be16 payloadLen ++
        (before ++ (rest.take (rest.length - 4) ++
          (echo.encode ++ (rest ++ room)).drop (rest.length - 4))))) (link.length + 4)
        (be16 (payloadLen - ofNat 16 (4 + 6))) =
        some ((link ++ ([h.verType, h.code] ++ be16 h.sesID)) ++ (be16 (payloadLen - 10) ++
          (before ++ (rest.take (rest.length - 4) ++
            (echo.encode ++ (rest ++ room)).drop (rest.length - 4))))) := put_append hpre rfl
    simpa only [PppoeHdr.bytes, append_assoc] using hput
  refine ⟨{ pSkb with
    buf := (link ++ (h.bytes (payloadLen - 10) ++ before)) ++ (rest.take (rest.length - 4) ++
      (echo.encode ++ (rest ++ room)).drop (rest.length - 4))
    len := pSkb.len - 10 }, ?_, rfl, ?_⟩
  · unfold removeTag
    dsimp only
    rw [hmove, bind_eq_bind, bind_some, hfield]
    rfl
  · have hfront' : (link ++ (h.bytes (payloadLen - 10) ++ before)).length =
        link.length + 6 + before.length := by
      simp only [length_append, PppoeHdr.length_bytes]
      omega
    have hcount : (pSkb.len - 10).toNat =
        (link ++ (h.bytes (payloadLen - 10) ++ before)).length + rest.length := by
      rw [hfront']
      have hlt := pSkb.len.isLt
      bv_omega
    have hkept : (rest.take (rest.length - 4)).length = rest.length - 4 := by
      rw [length_take, Nat.min_eq_left (sub_le _ _)]
    have hfour : rest.length - (rest.length - 4) = 4 := by omega
    have hlast : ((echo.encode ++ (rest ++ room)).drop (rest.length - 4)).take 4 =
        ((echo.encode ++ rest).drop (rest.length - 4)).take 4 := by
      have hroom : rest.length - 4 + 4 ≤ (echo.encode ++ rest).length := by
        rw [length_append, htag]
        omega
      rw [← append_assoc, drop_append_of_le_length (by omega),
        take_append_of_le_length (by rw [length_drop]; omega)]
    show take (pSkb.len - 10).toNat _ = _
    rw [hcount, take_length_add_append]
    rw [take_append, hkept, hfour, take_of_length_le (by omega), hlast, shifted]
    simp only [append_assoc]

end

section

variable {t : PppoeTables} {d : DiscoveryPkt} {before after : List Attr} {findTag : BitVec 16}
  {uid mac : MacAddr} {c : PppoeCall}

def echoTag (findTag : BitVec 16) (uid : MacAddr) : Attr := ⟨findTag, ofFn uid⟩

/-- What stands behind the tag. -/
def restOf (d : DiscoveryPkt) (after : List Attr) : List FrameByte :=
  encodeAll after ++ d.trailing

@[simp] theorem length_echoTag (findTag : BitVec 16) (uid : MacAddr) :
    (echoTag findTag uid).value.length = 6 := length_ofFn

theorem isFound_echoTag (findTag : BitVec 16) (uid : MacAddr) :
    IsFound findTag (echoTag findTag uid) := by
  refine ⟨rfl, ne_nil_of_length_pos ?_⟩
  rw [length_echoTag]
  decide

section

variable (htags : d.tags = before ++ echoTag findTag uid :: after)

include htags

theorem buf_reply : d.skb.buf = d.link ++ (d.hdr.bytes d.payloadLen ++ (encodeAll before ++
    ((echoTag findTag uid).encode ++ (restOf d after ++ d.room)))) := by
  rw [d.buf_eq, htags]
  simp only [encodeAll_append, encodeAll_cons, restOf, append_assoc]

theorem length_tags : (encodeAll d.tags).length =
    (encodeAll before).length + 10 + (encodeAll after).length := by
  rw [htags, encodeAll_append, encodeAll_cons]
  simp only [length_append, Attr.length_encode, length_echoTag]
  omega

theorem toNat_len_reply : d.skb.len.toNat =
    d.link.length + 6 + (encodeAll before).length + 10 + (restOf d after).length := by
  rw [d.toNat_len, length_tags htags, restOf, length_append]
  omega

/-- **The search** finds the tag. -/
theorem tagSearch_reply (hother : ∀ a ∈ before, ¬ IsFound findTag a) :
    tagSearch d.skb.buf d.link.length findTag d.payloadLen =
      some (some (d.link.length + 6 + (encodeAll before).length + 4), 6) := by
  have hlt := d.payload_lt
  have hlen := length_tags htags
  have hfit : ∀ a ∈ before, a.Fits := fits_of_length (by omega)
  have hecho : (echoTag findTag uid).Fits := by
    rw [Attr.Fits, length_echoTag]
    decide
  have hcode : (echoTag findTag uid).encode.length = 10 := by
    rw [Attr.length_encode, length_echoTag]
  have hpre : (d.link ++ d.hdr.bytes d.payloadLen).length = d.link.length + 6 := by
    rw [length_append, PppoeHdr.length_bytes]
  have hpre' : (d.link ++ d.hdr.bytes d.payloadLen ++ encodeAll before).length =
      d.link.length + 6 + (encodeAll before).length := by rw [length_append, hpre]
  have hbuf : d.skb.buf = (d.link ++ d.hdr.bytes d.payloadLen) ++ (encodeAll before ++
      ((echoTag findTag uid).encode ++ (restOf d after ++ d.room))) := by
    simp only [buf_reply htags, append_assoc]
  obtain ⟨k, hk⟩ : ∃ k, d.skb.buf.length + 1 = before.length + (k + 1) := by
    have hle := encodeAll_length_le before
    refine ⟨d.skb.buf.length - before.length, ?_⟩
    rw [hbuf]
    simp only [length_append]
    omega
  have hleft : d.payloadLen = ofNat 16 ((encodeAll before).length +
      ((echoTag findTag uid).encode.length + (encodeAll after).length)) := by
    rw [DiscoveryPkt.payloadLen, hlen, hcode, Nat.add_assoc]
  have hsum : (encodeAll before).length + ((echoTag findTag uid).encode.length +
      (encodeAll after).length) < 2 ^ 16 := by omega
  obtain ⟨tagLen, hpassed⟩ := tagLoop_encodeAll hfit hother hsum hpre
    ((echoTag findTag uid).encode ++ (restOf d after ++ d.room)) 0 (k + 1)
  have hroom : (echoTag findTag uid).encode.length + (encodeAll after).length < 2 ^ 16 := by omega
  have hstop := (tagLoop_tag hecho hroom hpre' findTag (restOf d after ++ d.room) tagLen k).1
    (isFound_echoTag findTag uid)
  rw [append_assoc] at hstop
  rw [tagSearch, hk, hleft, hbuf, hpassed, hstop, length_echoTag]
  rfl

theorem fetch_echoTag : fetch d.skb.buf (d.link.length + 6 + (encodeAll before).length + 4) 6 =
      some (ofFn uid) := by
  have hcontent : (ofFn uid).length = 6 := length_ofFn
  let front := d.link ++ (d.hdr.bytes d.payloadLen ++ (encodeAll before ++ (be16 findTag ++
    be16 (ofNat 16 6))))
  have hfront : front.length = d.link.length + 6 + (encodeAll before).length + 4 := by
    simp only [front, length_append, PppoeHdr.length_bytes, length_be16]
    omega
  have hfetch : fetch (front ++ (ofFn uid ++ (restOf d after ++ d.room)))
      (d.link.length + 6 + (encodeAll before).length + 4) 6 = some (ofFn uid) :=
    fetch_append hfront hcontent
  rw [buf_reply htags, echoTag, Attr.encode]
  dsimp only
  rw [hcontent]
  simpa only [front, append_assoc] using hfetch

theorem payloadLen_reply :
    d.payloadLen - 10 = ofNat 16 (encodeAll (before ++ after)).length := by
  rw [DiscoveryPkt.payloadLen, length_tags htags, encodeAll_append, length_append]
  bv_omega

end

/-- The entry whose station gets the answer: the first one of its chain with the bytes of the
    tag. -/
def echoEntry (t : PppoeTables) (uid : MacAddr) : Option UidMacMappingEntry :=
  if t.uidMacTable.valid then
    (t.uidMacTable.entries (uidHashIdx (ofFn uid))).find? (·.hasUid (ofFn uid))
  else none

theorem uidMacTableLookUp_eq (t : PppoeTables) (uid : MacAddr) (now : BitVec 32) :
    (uidMacTableLookUp t.uidMacTable (ofFn uid) now).2 = echoEntry t uid := by
  unfold echoEntry uidMacTableLookUp
  cases hvalid : t.uidMacTable.valid with
  | true =>
    rw [if_pos rfl]
    exact (AgingTable.lookUp_spec hvalid _ _ now).2.2
  | false => simp [AgingTable.lookUp, hvalid]

/-- The handler behind the lookup, which a PADS takes to the other table. -/
def rxDone (t : PppoeTables) (code : FrameByte) (sesID : BitVec 16) (mac : MacAddr)
    (c : PppoeCall) (pSkb : Skb) : Option (PppoeTables × Skb × Option MacAddr) :=
  if code = pppoeCodePads then do
    let pSrvMac ← getMac pSkb.buf 6
    some ({ t with sesMacTable :=
      (sesMacTableUpdate t.sesMacTable mac sesID pSrvMac c.sesNow c.sesAlloc).1 }, pSkb, some mac)
  else some (t, pSkb, some mac)

theorem exists_rxDone {pSkb : Skb} (h : 12 ≤ pSkb.buf.length) (t : PppoeTables) (code : FrameByte)
    (sesID : BitVec 16) (mac : MacAddr) (c : PppoeCall) :
    ∃ t', rxDone t code sesID mac c pSkb = some (t', pSkb, some mac) := by
  unfold rxDone
  split
  · obtain ⟨b, hb⟩ := isSome_iff_exists.mp (fetch_isSome_iff.mpr (show 6 + 6 ≤ _ from h))
    rw [getMac, hb]
    exact ⟨_, rfl⟩
  · exact ⟨_, rfl⟩

theorem rxDone_eq {t t' : PppoeTables} {code : FrameByte} {sesID : BitVec 16} {pSkb pSkb' : Skb}
    {m : Option MacAddr} (h : rxDone t code sesID mac c pSkb = some (t', pSkb', m)) :
    pSkb' = pSkb ∧ m = some mac := by
  unfold rxDone at h
  split at h
  · obtain ⟨pSrvMac, -, h⟩ := bind_eq_some_iff.mp h
    rw [some.injEq, Prod.mk.injEq, Prod.mk.injEq] at h
    exact ⟨h.2.1.symm, h.2.2.symm⟩
  · rw [some.injEq, Prod.mk.injEq, Prod.mk.injEq] at h
    exact ⟨h.2.1.symm, h.2.2.symm⟩

variable (htags : d.tags = before ++ echoTag findTag uid :: after)
  (hother : ∀ a ∈ before, ¬ IsFound findTag a) (hcode : rxFindTag d.hdr.code = some findTag)

include htags hother hcode

/-- **What the handler does** with an answer that echoes a tag. -/
theorem matProtoPPPoEDisRx_reply :
    ∃ t₁, matProtoPPPoEDisRx t d.skb d.link.length c =
      match echoEntry t uid with
      | none => some (t₁, d.skb, none)
      | some x =>
        (if x.uIDAddByUs then removeTag d.skb (d.link.length + 4) d.payloadLen
            (d.link.length + 6 + (encodeAll before).length + 4) 6
          else some d.skb).bind (rxDone t₁ d.hdr.code d.hdr.sesID x.macAddr c) := by
  have hver : d.skb.buf[d.link.length]? = some d.hdr.verType := by
    rw [d.buf_eq]
    exact getElem?_verType rfl _ _ _
  have hcode' : d.skb.buf[d.link.length + 1]? = some d.hdr.code := by
    rw [d.buf_eq]
    exact getElem?_code rfl _ _ _
  have hses : getNtohs d.skb.buf (d.link.length + 2) = some d.hdr.sesID := by
    rw [d.buf_eq]
    exact getNtohs_sesID rfl _ _ _
  have hlen : getNtohs d.skb.buf (d.link.length + 4) = some d.payloadLen := by
    rw [d.buf_eq]
    exact getNtohs_payloadLen rfl _ _ _
  have hpadt : ¬ d.hdr.code = pppoeCodePadt := by
    intro hpadt
    rw [hpadt] at hcode
    cases hcode
  refine ⟨{ t with uidMacTable := (uidMacTableLookUp t.uidMacTable (ofFn uid) c.lookUpNow).1 },
    ?_⟩
  unfold matProtoPPPoEDisRx
  rw [hver, hcode', hses, hlen]
  simp only [bind_eq_bind, bind_some]
  rw [if_neg (not_not.mpr d.verType_eq), if_neg hpadt, hcode]
  dsimp only
  rw [tagSearch_reply htags hother]
  simp only [bind_some]
  rw [show min (6 : BitVec 16).toNat pppoeDisUidLen = 6 from rfl, fetch_echoTag htags]
  simp only [bind_some]
  rw [uidMacTableLookUp_eq]
  rfl

/-- **Which answers are passed on without the tag**: the first entry of its chain with the bytes of
    the tag is one that the driver has made for the station, four bytes at least stand behind the
    tag, and the last four of them are those that lie in their place already. -/
theorem rxRemoves_iff : RxRemoves t d before after mac c ↔
      (∃ x, echoEntry t uid = some x ∧ x.uIDAddByUs = true ∧ x.macAddr = mac) ∧
        4 ≤ (restOf d after).length ∧
          (((echoTag findTag uid).encode ++ restOf d after).drop ((restOf d after).length - 4)).take 4 =
            (restOf d after).drop ((restOf d after).length - 4) := by
  obtain ⟨t₁, hrx⟩ := matProtoPPPoEDisRx_reply (t := t) (c := c) htags hother hcode
  have hlen := toNat_len_reply htags
  have hsize : d.skb.buf.length < 2 ^ 32 := by
    have hlt := d.size_lt
    rw [d.buf_eq]
    simp only [length_append, PppoeHdr.length_bytes]
    omega
  cases hentry : echoEntry t uid with
  | none =>
    -- the answer names nobody
    rw [hentry] at hrx
    refine iff_of_false ?_ fun hcond => ?_
    · rintro ⟨t', pSkb, hrx', -⟩
      rw [hrx] at hrx'
      cases hrx'
    · obtain ⟨⟨x, hx, -⟩, -⟩ := hcond
      cases hx
  | some x =>
    rw [hentry] at hrx
    dsimp only at hrx
    cases hours : x.uIDAddByUs with
    | false =>
      -- the tag is taken for one of the station's own
      rw [hours, if_neg Bool.false_ne_true, bind_some] at hrx
      refine iff_of_false ?_ fun hcond => ?_
      · rintro ⟨t', pSkb, hrx', hshort, -⟩
        obtain ⟨rfl, -⟩ := rxDone_eq (hrx.symm.trans hrx')
        bv_omega
      · obtain ⟨⟨y, hy, hyes, -⟩, -⟩ := hcond
        rw [← some.inj hy, hours] at hyes
        cases hyes
    | true =>
      rw [hours, if_pos rfl] at hrx
      by_cases hlong : 4 ≤ (restOf d after).length
      · obtain ⟨pkt, hremove, hpktLen, hpktBuf⟩ := removeTag_spec hlen
          (length_echoTag findTag uid) (buf_reply htags) hlong
        have htwelve : 12 ≤ pkt.buf.length := by
          have hcount := congrArg List.length hpktBuf
          have hlink := d.link_le
          simp only [length_take, length_append] at hcount
          omega
        obtain ⟨t₂, hdone⟩ := exists_rxDone htwelve t₁ d.hdr.code d.hdr.sesID x.macAddr c
        rw [hremove, bind_some, hdone] at hrx
        rw [payloadLen_reply htags] at hpktBuf
        have hbytes : pkt.buf.take pkt.len.toNat =
            d.link ++ (pppoePacket d.hdr (encodeAll (before ++ after)) ++ d.trailing) ↔
              shifted (echoTag findTag uid).encode (restOf d after) = restOf d after := by
          rw [hpktBuf, pppoePacket, encodeAll_append]
          simp only [append_assoc, append_cancel_left_eq, restOf]
        rw [← shifted_eq_iff, ← hbytes]
        constructor
        · rintro ⟨t', pSkb, hrx', -, hsame⟩
          rw [hrx, some.injEq, Prod.mk.injEq, Prod.mk.injEq, some.injEq] at hrx'
          obtain ⟨-, rfl, hmac⟩ := hrx'
          exact ⟨⟨x, rfl, hours, hmac⟩, hlong, hsame⟩
        · rintro ⟨⟨y, hy, -, hmac⟩, -, hsame⟩
          obtain rfl := some.inj hy
          rw [hmac] at hrx
          exact ⟨t₂, pkt, hrx, hpktLen, hsame⟩
      · rw [removeTag_eq_none hlen hsize (Nat.not_le.mp hlong)] at hrx
        refine iff_of_false ?_ fun hcond => hlong hcond.2.1
        rintro ⟨t', pSkb, hrx', -⟩
        rw [hrx] at hrx'
        cases hrx'

end

/-- **Insertion and removal**: no packet is sent with a new tag behind its own, whatever the tables
    hold; and the answers that are passed on to a station without the tag are those of
    `rxRemoves_iff`. -/
theorem pppoeTag_insert_remove (t : PppoeTables) (d : DiscoveryPkt) (c : PppoeCall) :
    (∀ findTag, txFindTag d.hdr.code = some findTag → ¬ TxInserts t d findTag c) ∧
    ∀ (before after : List Attr) (findTag : BitVec 16) (uid mac : MacAddr),
      d.tags = before ++ echoTag findTag uid :: after → (∀ a ∈ before, ¬ IsFound findTag a) →
      rxFindTag d.hdr.code = some findTag →
      (RxRemoves t d before after mac c ↔
        (∃ x, echoEntry t uid = some x ∧ x.uIDAddByUs = true ∧ x.macAddr = mac) ∧
          4 ≤ (restOf d after).length ∧
          (((echoTag findTag uid).encode ++ restOf d after).drop
            ((restOf d after).length - 4)).take 4 =
              (restOf d after).drop ((restOf d after).length - 4)) :=
  ⟨fun _ hcode => not_txInserts hcode,
    fun _ _ _ _ _ htags hother hcode => rxRemoves_iff htags hother hcode⟩

/-- A PADI of station 1 with an empty Service-Name tag. -/
def padi : DiscoveryPkt where
  link := [0xff, 0xff, 0xff, 0xff, 0xff, 0xff, 2, 0, 0, 0, 0, 1, 0x88, 0x63]
  hdr := ⟨0x11, pppoeCodePadi, 0⟩
  tags := [⟨0x0101, []⟩]
  trailing := []
  room := replicate 16 0
  cloned := false
  link_le := by decide
  link_lt := by decide
  verType_eq := rfl
  payload_lt := by decide
  size_lt := by decide

/-- A PADO for station 1 that echoes its tag as the last one, with zeros behind it. -/
def pado : DiscoveryPkt where
  link := [2, 0, 0, 0, 0, 1, 2, 0, 0, 0, 0, 9, 0x88, 0x63]
  hdr := ⟨0x11, pppoeCodePado, 0⟩
  tags := [⟨0x0101, []⟩, echoTag pppoeTagIdHostUniq (station 1)]
  trailing := replicate 26 0
  room := []
  cloned := false
  link_le := by decide
  link_lt := by decide
  verType_eq := rfl
  payload_lt := by decide
  size_lt := by decide

def noTables : PppoeTables := ⟨agingTableInit, agingTableInit⟩

def PppoeCall.at (now : BitVec 32) : PppoeCall := ⟨.at now, true, now, .at now, true, now, true⟩

/-- A PADI goes out with its Service-Name tag cut in two. -/
theorem not_txInserts_padi : ¬ TxInserts noTables padi pppoeTagIdHostUniq (.at 0) :=
  not_txInserts rfl

def padiTables : PppoeTables :=
  ⟨(uidMacTableUpdate agingTableInit (station 1) (station 255) none false (.at 0) true).1,
    agingTableInit⟩

/-- The PADO that echoes the tag among zeros is passed on without it. -/
theorem pppoeTag_insert_remove_pado : ¬ TxInserts noTables padi pppoeTagIdHostUniq (.at 0) ∧
      RxRemoves padiTables pado [⟨0x0101, []⟩] [] (station 1) (.at 0) :=
  ⟨(pppoeTag_insert_remove noTables padi (.at 0)).1 _ rfl,
    ((pppoeTag_insert_remove padiTables pado (.at 0)).2 [⟨0x0101, []⟩] [] pppoeTagIdHostUniq
      (station 1) (station 1) rfl (by unfold IsFound; decide) rfl).mpr
      ⟨⟨⟨false, true, fun i => (List.ofFn (station 1)).getD i 0, station 1⟩, rfl, rfl, rfl⟩,
        by decide, by decide⟩⟩

end RalinkSdk.Mat
