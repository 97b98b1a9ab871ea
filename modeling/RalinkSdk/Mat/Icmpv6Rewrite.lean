import RalinkSdk.Mat.Icmpv6Csum

/-!
# The option that is rewritten

A message is to go out with the address of the device in the first option of the wanted type that
lies inside it, with a right checksum, and otherwise as it was.

The length that is left when the loop begins is that of the whole message, although the options
begin behind the fixed part, and it wraps around when an option is longer.  So the way over the
options may lead behind the message, and the option that it comes to may lie there.
-/

namespace RalinkSdk.Mat

open List Option
open IgmpSnoop (MacAddr FrameByte)
open Lib
open scoped IgmpSnoop
open BitVec (ofNat eq_of_toNat_eq ofNat_add toNat_ofNat toNat_sub)

/-! ## Ways over the options -/

/-- From one option to another, over options of other types whose lengths are not 0. -/
inductive OptPath (mem : List FrameByte) (hdr : Nat) (wanted : FrameByte)
    (Passes : Nat → Nat → Prop) : Nat → Nat → Prop where
  | refl (o : Nat) : OptPath mem hdr wanted Passes o o
  | step {o o' : Nat} {type len : FrameByte} :
      mem[hdr + o]? = some type → type ≠ wanted → mem[hdr + o + 1]? = some len → len ≠ 0 →
      Passes o (o + len.toNat * 8) → OptPath mem hdr wanted Passes (o + len.toNat * 8) o' →
      OptPath mem hdr wanted Passes o o'

/-- An option of the wanted type with a length that is not 0. -/
def IsOption (mem : List FrameByte) (hdr : Nat) (wanted : FrameByte) (o : Nat) : Prop :=
  mem[hdr + o]? = some wanted ∧ ∃ len, mem[hdr + o + 1]? = some len ∧ len ≠ 0

namespace OptPath

variable {mem : List FrameByte} {hdr : Nat} {wanted : FrameByte}
  {Passes Passes' : Nat → Nat → Prop} {o o' : Nat}

theorem le (h : OptPath mem hdr wanted Passes o o') : o ≤ o' := by
  induction h with
  | refl o => exact Nat.le_refl o
  | step _ _ _ _ _ _ ih => omega

theorem mono (h : OptPath mem hdr wanted Passes o o')
    (hpasses : ∀ p q, p < q → q ≤ o' → Passes p q → Passes' p q) :
    OptPath mem hdr wanted Passes' o o' := by
  induction h with
  | refl o => exact .refl o
  | @step o o' type len htype hother hlen hne hpass hrest ih =>
    have hpos : 0 < len.toNat := by
      have hzero : len.toNat ≠ 0 := fun hzero => hne (eq_of_toNat_eq hzero)
      omega
    exact .step htype hother hlen hne (hpasses _ _ (by omega) hrest.le hpass) (ih hpasses)

end OptPath

/-! ## Packets -/

theorem ndMessage_bounds {type wanted : FrameByte} {fixedLen : Nat}
    (h : ndMessage type = some (fixedLen, wanted)) : 8 ≤ fixedLen ∧ fixedLen ≤ 40 := by
  unfold ndMessage at h
  repeat' split at h
  all_goals cases h
  all_goals decide

/-- A packet with a message of neighbour discovery behind its headers.  No buffer is larger than
    half of the address space. -/
structure NdPkt where
  skb : Skb
  offset : Nat
  payloadLen : BitVec 16
  type : FrameByte
  fixedLen : Nat
  wanted : FrameByte
  size_lt : skb.buf.length < 2 ^ 31
  upperLayer_eq : upperLayer skb.buf (layerHdr skb.buf) = some (ipv6NextHeaderIcmpv6, offset)
  payloadLen_eq : getNtohs skb.buf (layerHdr skb.buf + 4) = some payloadLen
  type_eq : skb.buf[layerHdr skb.buf + offset]? = some type
  ndMessage_eq : ndMessage type = some (fixedLen, wanted)

namespace NdPkt

variable (d : NdPkt)

/-- Where the IPv6 header begins. -/
def hdr : Nat := layerHdr d.skb.buf

/-- Where the message ends, by the length field. -/
def msgEnd : Nat := d.payloadLen.toNat + ipv6HdrLen

def options : Nat := d.offset + d.fixedLen

/-- **The first option** of the wanted type that lies inside the message. -/
def IsFirstOption (o : Nat) : Prop :=
  OptPath d.skb.buf d.hdr d.wanted (fun _ next => next ≤ d.msgEnd) d.options o ∧
    d.skb.buf[d.hdr + o]? = some d.wanted ∧
      ∃ len, d.skb.buf[d.hdr + o + 1]? = some len ∧ len ≠ 0 ∧ o + len.toNat * 8 ≤ d.msgEnd

/-- The bytes that may change: of the message, those of the checksum and of the address. -/
def MayChange (i : Nat) : Prop :=
  d.hdr + d.offset ≤ i ∧ i < d.hdr + d.msgEnd ∧
    (d.hdr + d.offset + 2 ≤ i ∧ i < d.hdr + d.offset + 4 ∨
      ∃ o, d.IsFirstOption o ∧ d.hdr + o + 2 ≤ i ∧ i < d.hdr + o + 8)

/-- No other byte changes. -/
def ChangesOnly (buf : List FrameByte) : Prop :=
  buf.length = d.skb.buf.length ∧ ∀ i, buf[i]? ≠ d.skb.buf[i]? → d.MayChange i

/-- The message has a checksum, and the sum over the pseudo header and the message is right. -/
def ChecksumValid (buf : List FrameByte) : Prop :=
  d.offset + 4 ≤ d.msgEnd ∧
    ∃ addrs msg, fetch buf (d.hdr + 8) 32 = some addrs ∧
      fetch buf (d.hdr + d.offset) (d.msgEnd - d.offset) = some msg ∧
        onesSum 0 (words16 (pseudoHdr addrs (ofNat 16 (d.msgEnd - d.offset)) ++ msg)) =
          BitVec.allOnes 16

/-- **What should be done**: nothing changes but the address and the checksum, and the packet that
    goes out has a right checksum. -/
def RewritesWell (mac : MacAddr) (copyAlloc : Bool) : Prop :=
  ∃ pSkb newSkb, icmpv6HandleTx d.skb d.hdr mac d.offset copyAlloc = some (pSkb, newSkb) ∧
    d.ChangesOnly pSkb.buf ∧ (∀ s, newSkb = some s → d.ChangesOnly s.buf) ∧
      d.ChecksumValid (newSkb.getD pSkb).buf

/-! ## The way that the loop goes -/

/-- The loop ends here by the length: between the end of the message and the length of the fixed
    part behind it. -/
def StopsAt (o : Nat) : Prop := o ≤ d.msgEnd + d.fixedLen ∧ d.msgEnd + d.fixedLen ≤ o + 3

instance (o : Nat) : Decidable (d.StopsAt o) := inferInstanceAs (Decidable (_ ∧ _))

/-- The way that the loop goes, which the end of the message does not stop. -/
def LoopPath : Nat → Nat → Prop := OptPath d.skb.buf d.hdr d.wanted fun o _ => ¬ d.StopsAt o

/-- The source address is not the unspecified one. -/
def HasSource : Prop := isUnspecifiedIpv6Addr d.skb.buf (d.hdr + 8) = some false

/-- The loop is not made, or it ends by the length or at an option of length 0. -/
def EndsWithout : Prop :=
  d.HasSource →
    ∃ o, d.LoopPath d.options o ∧
      (d.StopsAt o ∨
        (d.skb.buf[d.hdr + o]?).isSome ∧ d.skb.buf[d.hdr + o + 1]? = some 0)

/-- The loop comes to an option of the wanted type. -/
def ComesTo (o : Nat) : Prop :=
  d.HasSource ∧ d.LoopPath d.options o ∧ ¬ d.StopsAt o ∧ IsOption d.skb.buf d.hdr d.wanted o

def EndsInside (o : Nat) : Prop :=
  ∃ len, d.skb.buf[d.hdr + o + 1]? = some len ∧ o + len.toNat * 8 ≤ d.msgEnd

/-- The checksum would be right as 0, with the address in the option. -/
def ZeroIsRight (o : Nat) (mac : MacAddr) : Prop :=
  ∃ buf₁ buf₂, put d.skb.buf (d.hdr + (o + 2)) (ofFn mac) = some buf₁ ∧
    put buf₁ (d.hdr + d.offset + 2) [0, 0] = some buf₂ ∧ d.ChecksumValid buf₂

/-- **The packets that are rewritten well**: the loop comes to no option and the checksum is right
    already; or it comes to one that lies inside the message, or has the address already, and the
    message lies in the buffer and has a length that is a multiple of four, or needs the
    checksum 0. -/
def RightWhen (mac : MacAddr) : Prop :=
  d.EndsWithout ∧ d.ChecksumValid d.skb.buf ∨
    ∃ o, d.ComesTo o ∧ d.offset + 4 ≤ d.msgEnd ∧ d.hdr + d.msgEnd ≤ d.skb.buf.length ∧
      (d.EndsInside o ∨ fetch d.skb.buf (d.hdr + (o + 2)) 6 = some (ofFn mac)) ∧
        ((d.msgEnd - d.offset) % 4 = 0 ∨ d.ZeroIsRight o mac)

/-! ## The loop -/

variable {d : NdPkt} {o o' fuel : Nat}

def leftLen (d : NdPkt) (o : Nat) : BitVec 32 :=
  ofNat 32 (d.msgEnd + d.fixedLen) - ofNat 32 o

theorem fixedLen_bounds (d : NdPkt) : 8 ≤ d.fixedLen ∧ d.fixedLen ≤ 40 :=
  ndMessage_bounds d.ndMessage_eq

theorem msgEnd_lt (d : NdPkt) : d.msgEnd < 2 ^ 16 + 40 := by
  have h := d.payloadLen.isLt
  unfold msgEnd ipv6HdrLen
  omega

theorem leftLen_add (d : NdPkt) (o n : Nat) :
    d.leftLen (o + n) = d.leftLen o - ofNat 32 n := by
  rw [leftLen, leftLen, ofNat_add o n, sub_add_eq_sub_sub]

theorem leftLen_le_iff (ho : o < 2 ^ 32 - 2 ^ 17) :
    d.leftLen o ≤ sizeofOptionHdr ↔ d.StopsAt o := by
  have hend := d.msgEnd_lt
  have hfixed := d.fixedLen_bounds
  have hthree : sizeofOptionHdr.toNat = 3 := rfl
  rw [BitVec.le_def, leftLen, toNat_sub, toNat_ofNat, toNat_ofNat, hthree,
    StopsAt]
  omega

theorem offset_lt {b : FrameByte} (h : d.skb.buf[d.hdr + o + 1]? = some b) :
    o + 1 < d.skb.buf.length := by
  obtain ⟨hlt, -⟩ := List.getElem?_eq_some_iff.mp h
  omega

theorem optLoop_succ (ho : o < 2 ^ 32 - 2 ^ 17) :
    optLoop d.skb.buf d.hdr d.wanted (fuel + 1) o (d.leftLen o) =
      if d.StopsAt o then some none
      else (d.skb.buf[d.hdr + o]?).bind fun type => (d.skb.buf[d.hdr + o + 1]?).bind fun len =>
        if len = 0 then some none else if type = d.wanted then some (some (o + 2))
        else optLoop d.skb.buf d.hdr d.wanted fuel (o + len.toNat * 8)
          (d.leftLen (o + len.toNat * 8)) := by
  rw [optLoop]
  simp only [leftLen_le_iff ho, leftLen_add, bind_eq_bind]

theorem optLoop_sound (fuel : Nat) : ∀ {o : Nat} {found : Option Nat}, o < 2 ^ 31 + 2 ^ 12 →
      optLoop d.skb.buf d.hdr d.wanted fuel o (d.leftLen o) = some found →
      ∃ o', d.LoopPath o o' ∧
        (found = none ∧ (d.StopsAt o' ∨
            (d.skb.buf[d.hdr + o']?).isSome ∧ d.skb.buf[d.hdr + o' + 1]? = some 0) ∨
          found = some (o' + 2) ∧ ¬ d.StopsAt o' ∧ IsOption d.skb.buf d.hdr d.wanted o') := by
  induction fuel with
  | zero =>
    intro o found _ h
    cases h
  | succ fuel ih =>
    intro o found ho h
    rw [optLoop_succ (by omega)] at h
    split at h
    · next hstop =>
      obtain rfl := some.inj h
      exact ⟨o, .refl o, .inl ⟨rfl, .inl hstop⟩⟩
    next hgoes =>
    obtain ⟨type, htype, h⟩ := bind_eq_some_iff.mp h
    obtain ⟨len, hlen, h⟩ := bind_eq_some_iff.mp h
    split at h
    · next hzero =>
      obtain rfl := some.inj h
      rw [hzero] at hlen
      exact ⟨o, .refl o, .inl ⟨rfl, .inr ⟨isSome_of_eq_some htype, hlen⟩⟩⟩
    next hne =>
    split at h
    · next hwanted =>
      obtain rfl := some.inj h
      rw [hwanted] at htype
      exact ⟨o, .refl o, .inr ⟨rfl, hgoes, htype, len, hlen, hne⟩⟩
    · next hother =>
      have hbyte := len.isLt
      have hroom := offset_lt hlen
      have hsize := d.size_lt
      obtain ⟨o', hpath, hend⟩ := ih (by omega) h
      exact ⟨o', .step htype hother hlen hne hgoes hpath, hend⟩

/-- **The loop follows the way**, and has fuel enough for it. -/
theorem optLoop_path (h : d.LoopPath o o') :
    ∀ {fuel : Nat}, 1 ≤ fuel → d.skb.buf.length + 1 ≤ fuel + o → o < 2 ^ 31 + 2 ^ 12 →
      ∃ fuel', 1 ≤ fuel' ∧ o' < 2 ^ 31 + 2 ^ 12 ∧
        optLoop d.skb.buf d.hdr d.wanted fuel o (d.leftLen o) =
          optLoop d.skb.buf d.hdr d.wanted fuel' o' (d.leftLen o') := by
  induction h with
  | refl o => exact fun hpos _ ho => ⟨_, hpos, ho, rfl⟩
  | @step o o' type len htype hother hlen hne hgoes hrest ih =>
    intro fuel hpos hfuel ho
    obtain ⟨fuel, rfl⟩ : ∃ n, fuel = n + 1 := ⟨fuel - 1, by omega⟩
    have hbyte := len.isLt
    have hroom := offset_lt hlen
    have hsize := d.size_lt
    have hlenPos : 0 < len.toNat := by
      have hzero : len.toNat ≠ 0 := fun hzero => hne (eq_of_toNat_eq hzero)
      omega
    obtain ⟨fuel', hpos', ho', heq⟩ := @ih fuel (by omega) (by omega) (by omega)
    refine ⟨fuel', hpos', ho', ?_⟩
    rw [optLoop_succ (by omega), if_neg hgoes, htype, hlen, ← heq]
    simp only [bind_some]
    rw [if_neg hne, if_neg hother]

/-! ## The search -/

theorem le_of_extHdrLoop {mem : List FrameByte} {p : Nat} (fuel : Nat) :
    ∀ {proto proto' : FrameByte} {o o' : Nat},
      extHdrLoop mem p fuel proto o = some (proto', o') → o ≤ o' := by
  induction fuel with
  | zero =>
    intro proto proto' o o' h
    cases h
  | succ fuel ih =>
    intro proto proto' o o' h
    rw [extHdrLoop] at h
    split at h
    · rw [some.injEq, Prod.mk.injEq] at h
      exact h.2.le
    · obtain ⟨out, -, h⟩ := bind_eq_some_iff.mp h
      have hle : o ≤ o + out.2.2 := Nat.le_add_right o _
      split at h
      · exact hle.trans (ih h)
      · rw [some.injEq, Prod.mk.injEq] at h
        exact hle.trans h.2.le

theorem ipv6HdrLen_le_offset (d : NdPkt) : 40 ≤ d.offset := by
  obtain ⟨nextHdr, -, h⟩ := bind_eq_some_iff.mp d.upperLayer_eq
  exact le_of_extHdrLoop _ h

theorem hdr_add_offset_lt (d : NdPkt) : d.hdr + d.offset < d.skb.buf.length :=
  (List.getElem?_eq_some_iff.mp d.type_eq).1

/-- The search that the handler makes. -/
def search (d : NdPkt) : Option (Option Nat) :=
  (isUnspecifiedIpv6Addr d.skb.buf (d.hdr + 8)).bind fun unspecified =>
    if unspecified then some none
    else optLoop d.skb.buf d.hdr d.wanted (d.skb.buf.length + 1) d.options (d.leftLen d.options)

theorem search_of_hasSource (h : d.HasSource) : d.search =
    optLoop d.skb.buf d.hdr d.wanted (d.skb.buf.length + 1) d.options (d.leftLen d.options) := by
  rw [search, h, bind_some, if_neg Bool.false_ne_true]

theorem search_of_not_hasSource (h : ¬ d.HasSource) : d.search = some none := by
  have hroom : (fetch d.skb.buf (d.hdr + 8) 16).isSome := by
    rw [fetch_isSome_iff]
    have hlt := d.hdr_add_offset_lt
    have hle := d.ipv6HdrLen_le_offset
    omega
  obtain ⟨addr, haddr⟩ := isSome_iff_exists.mp hroom
  unfold HasSource at h
  rw [isUnspecifiedIpv6Addr, haddr, map_some, some.injEq, Bool.not_eq_false] at h
  rw [search, isUnspecifiedIpv6Addr, haddr, map_some, bind_some, if_pos h]

theorem options_lt (d : NdPkt) : d.options < 2 ^ 31 + 2 ^ 12 := by
  have hlt := d.hdr_add_offset_lt
  have hsize := d.size_lt
  have hfixed := d.fixedLen_bounds
  unfold options
  omega

theorem search_of_loopPath (hsource : d.HasSource) (h : d.LoopPath d.options o) :
    ∃ fuel, o < 2 ^ 31 + 2 ^ 12 ∧
      d.search = optLoop d.skb.buf d.hdr d.wanted (fuel + 1) o (d.leftLen o) := by
  obtain ⟨fuel, hpos, ho, heq⟩ := optLoop_path h (Nat.le_add_left 1 _) (Nat.le_add_right _ _)
    d.options_lt
  refine ⟨fuel - 1, ho, ?_⟩
  rw [search_of_hasSource hsource, heq, Nat.sub_add_cancel hpos]

theorem search_of_comesTo (h : d.ComesTo o) : d.search = some (some (o + 2)) := by
  obtain ⟨hsource, hpath, hgoes, hwanted, len, hlen, hne⟩ := h
  obtain ⟨fuel, ho, heq⟩ := search_of_loopPath hsource hpath
  rw [heq, optLoop_succ (by omega), if_neg hgoes, hwanted, hlen, bind_some, bind_some,
    if_neg hne, if_pos rfl]

theorem search_of_endsWithout (h : d.EndsWithout) : d.search = some none := by
  by_cases hsource : d.HasSource
  · obtain ⟨o, hpath, hend⟩ := h hsource
    obtain ⟨fuel, ho, heq⟩ := search_of_loopPath hsource hpath
    rw [heq, optLoop_succ (by omega)]
    by_cases hstop : d.StopsAt o
    · rw [if_pos hstop]
    · obtain ⟨htype, hlen⟩ := hend.resolve_left hstop
      obtain ⟨type, htype⟩ := isSome_iff_exists.mp htype
      rw [if_neg hstop, htype, hlen, bind_some, bind_some, if_pos rfl]
  · exact search_of_not_hasSource hsource

/-- **When nothing is found.** -/
theorem search_eq_none_iff : d.search = some none ↔ d.EndsWithout := by
  constructor
  · intro h hsource
    rw [search_of_hasSource hsource] at h
    obtain ⟨o, hpath, hend⟩ := optLoop_sound _ d.options_lt h
    rcases hend with ⟨-, hend⟩ | ⟨hfound, -⟩
    · exact ⟨o, hpath, hend⟩
    · cases hfound
  · exact search_of_endsWithout

/-- **What is found.** -/
theorem search_eq_some_iff {pSrcMac : Nat} :
    d.search = some (some pSrcMac) ↔ ∃ o, d.ComesTo o ∧ pSrcMac = o + 2 := by
  constructor
  · intro h
    by_cases hsource : d.HasSource
    · rw [search_of_hasSource hsource] at h
      obtain ⟨o, hpath, hend⟩ := optLoop_sound _ d.options_lt h
      rcases hend with ⟨hnone, -⟩ | ⟨hfound, hgoes, hoption⟩
      · cases hnone
      · exact ⟨o, ⟨hsource, hpath, hgoes, hoption⟩, some.inj hfound⟩
    · rw [search_of_not_hasSource hsource] at h
      cases h
  · rintro ⟨o, hcomes, rfl⟩
    exact search_of_comesTo hcomes

theorem comesTo_unique (h : d.ComesTo o) (h' : d.ComesTo o') : o = o' := by
  have heq := (search_of_comesTo h).symm.trans (search_of_comesTo h')
  exact Nat.add_right_cancel (some.inj (some.inj heq))

/-! ## The handler -/

theorem icmpMsgLen_eq (d : NdPkt) :
    d.payloadLen.setWidth 32 + ofNat 32 ipv6HdrLen - ofNat 32 d.offset =
      d.leftLen d.options := by
  have hlen : d.payloadLen.setWidth 32 = ofNat 32 d.payloadLen.toNat := by
    apply eq_of_toNat_eq
    rw [BitVec.toNat_setWidth, toNat_ofNat]
  rw [leftLen, options, msgEnd, hlen, ofNat_add, ofNat_add, ofNat_add,
    add_sub_add_right_eq_sub]

theorem rewritesWell_iff_search {mac : MacAddr} {copyAlloc : Bool} : d.RewritesWell mac copyAlloc ↔
      d.search = some none ∧ d.ChecksumValid d.skb.buf ∨
        ∃ pSrcMac buf, d.search = some (some pSrcMac) ∧
          replaceLlAddr d.skb.buf d.hdr d.offset pSrcMac (d.leftLen d.options) mac = some buf ∧
            d.ChangesOnly buf ∧ d.ChecksumValid buf := by
  have hsame : d.ChangesOnly d.skb.buf := ⟨rfl, fun i hne => absurd rfl hne⟩
  have hpayload : getNtohs d.skb.buf (d.hdr + 4) = some d.payloadLen := d.payloadLen_eq
  have htype : d.skb.buf[d.hdr + d.offset]? = some d.type := d.type_eq
  have hhandle : icmpv6HandleTx d.skb d.hdr mac d.offset copyAlloc =
      d.search.bind fun found => found.elim (some (d.skb, none)) fun pSrcMac =>
        (replaceLlAddr d.skb.buf d.hdr d.offset pSrcMac (d.leftLen d.options) mac).map fun buf =>
          if d.skb.cloned ∧ copyAlloc then (d.skb, some { d.skb with buf := buf, cloned := false })
          else ({ d.skb with buf := buf }, none) := by
    unfold icmpv6HandleTx search
    rw [hpayload, bind_eq_bind, bind_some]
    dsimp only
    rw [htype, bind_eq_bind, bind_some, d.ndMessage_eq, bind_assoc, icmpMsgLen_eq]
    dsimp only
    congr 1
    funext unspecified
    congr 1
    funext found
    cases found with
    | none => rfl
    | some pSrcMac =>
      dsimp only [elim_some]
      by_cases hcopy : d.skb.cloned = true ∧ copyAlloc = true
      · simp only [if_pos hcopy, map_eq_bind]
        rfl
      · simp only [if_neg hcopy, map_eq_bind]
        rfl
  unfold RewritesWell
  rw [hhandle]
  constructor
  · rintro ⟨pSkb, newSkb, hout, hchanges, hcopy, hvalid⟩
    obtain ⟨found, hsearch, hout⟩ := bind_eq_some_iff.mp hout
    cases found with
    | none =>
      obtain ⟨rfl, rfl⟩ := Prod.mk.inj (some.inj hout)
      exact .inl ⟨hsearch, hvalid⟩
    | some pSrcMac =>
      obtain ⟨buf, hreplace, hout⟩ := map_eq_some_iff.mp hout
      refine .inr ⟨pSrcMac, buf, hsearch, hreplace, ?_⟩
      split at hout
      · obtain ⟨rfl, rfl⟩ := Prod.mk.inj hout
        exact ⟨hcopy _ rfl, hvalid⟩
      · obtain ⟨rfl, rfl⟩ := Prod.mk.inj hout
        exact ⟨hchanges, hvalid⟩
  · rintro (⟨hsearch, hvalid⟩ | ⟨pSrcMac, buf, hsearch, hreplace, hchanges, hvalid⟩)
    · refine ⟨d.skb, none, ?_, hsame, fun s h => absurd h.symm (some_ne_none s), hvalid⟩
      rw [hsearch]
      rfl
    · rw [hsearch, bind_some, elim_some, hreplace, map_some]
      by_cases hcopy : d.skb.cloned ∧ copyAlloc
      · rw [if_pos hcopy]
        refine ⟨_, _, rfl, hsame, ?_, hvalid⟩
        rintro s hs
        rw [← some.inj hs]
        exact hchanges
      · rw [if_neg hcopy]
        exact ⟨_, _, rfl, hchanges, fun s h => absurd h.symm (some_ne_none s), hvalid⟩

/-! ## The bytes that are written -/

theorem offset_add_le (h : d.ComesTo o) : d.offset + 8 ≤ o := by
  have hle : d.options ≤ o := h.2.1.le
  have hfixed := d.fixedLen_bounds
  unfold options at hle
  omega

theorem eight_le_mul {len : FrameByte} (h : len ≠ 0) : 8 ≤ len.toNat * 8 := by
  have hzero : len.toNat ≠ 0 := fun hzero => h (eq_of_toNat_eq hzero)
  omega

theorem isFirstOption_of_comesTo (h : d.ComesTo o) (hinside : d.EndsInside o) :
    d.IsFirstOption o := by
  obtain ⟨-, hpath, -, hwanted, len, hlen, hne⟩ := h
  obtain ⟨len', hlen', hend⟩ := hinside
  obtain rfl : len = len' := some.inj (hlen.symm.trans hlen')
  refine ⟨hpath.mono fun p q _ hq _ => ?_, hwanted, len, hlen, hne, hend⟩
  omega

theorem comesTo_of_isFirstOption (hsource : d.HasSource) (h : d.IsFirstOption o) :
    d.ComesTo o ∧ d.EndsInside o := by
  obtain ⟨hpath, hwanted, len, hlen, hne, hend⟩ := h
  have hfixed := d.fixedLen_bounds
  have hgoes : ∀ p, p < d.msgEnd → ¬ d.StopsAt p := by
    intro p hp hstop
    have hlow := hstop.2
    omega
  have height := eight_le_mul hne
  refine ⟨⟨hsource, hpath.mono fun p q hp _ hpass => hgoes p (by omega), hgoes o (by omega),
    hwanted, len, hlen, hne⟩, len, hlen, hend⟩

section

variable {mac : MacAddr} {buf₁ buf₂ buf₃ : List FrameByte} {chksum : BitVec 16}
  (haddr : put d.skb.buf (d.hdr + (o + 2)) (ofFn mac) = some buf₁)
  (hzero : put buf₁ (d.hdr + d.offset + 2) (ushortBytes 0) = some buf₂)
  (hchksum : put buf₂ (d.hdr + d.offset + 2) (ushortBytes chksum) = some buf₃)

include haddr hzero hchksum

theorem getElem?_replaced {i : Nat}
    (hfield : ¬ (d.hdr + d.offset + 2 ≤ i ∧ i < d.hdr + d.offset + 4)) :
    buf₃[i]? = if d.hdr + (o + 2) ≤ i ∧ i < d.hdr + (o + 2) + 6 then
      (ofFn mac)[i - (d.hdr + (o + 2))]? else d.skb.buf[i]? := by
  have hmac : (ofFn mac).length = 6 := length_ofFn
  have hfield' : ¬ (d.hdr + d.offset + 2 ≤ i ∧ i < d.hdr + d.offset + 2 + 2) := hfield
  rw [getElem?_put hchksum, length_ushortBytes, if_neg hfield', getElem?_put hzero,
    length_ushortBytes, if_neg hfield', getElem?_put haddr, hmac]

/-- **Only what may change does**, if the option ends inside the message or has the address
    already. -/
theorem changesOnly_iff (hcomes : d.ComesTo o) (hholds : d.offset + 4 ≤ d.msgEnd) :
    d.ChangesOnly buf₃ ↔
      d.EndsInside o ∨ fetch d.skb.buf (d.hdr + (o + 2)) 6 = some (ofFn mac) := by
  have hmac : (ofFn mac).length = 6 := length_ofFn
  have hbehind := offset_add_le hcomes
  have hroom := (put_eq_some_iff.mp haddr).1
  rw [hmac] at hroom
  constructor
  · rintro ⟨-, hframe⟩
    by_cases hinside : d.EndsInside o
    · exact .inl hinside
    refine .inr (fetch_eq_some_of_getElem? hroom hmac fun k hk => ?_)
    by_contra hne
    have hbyte := getElem?_replaced haddr hzero hchksum
      (show ¬ (d.hdr + d.offset + 2 ≤ d.hdr + (o + 2) + k ∧
        d.hdr + (o + 2) + k < d.hdr + d.offset + 4) by omega)
    rw [if_pos (by omega), Nat.add_sub_cancel_left] at hbyte
    obtain ⟨-, -, hfield | ⟨o', hfirst, -⟩⟩ := hframe (d.hdr + (o + 2) + k) (by
      rw [hbyte]
      exact Ne.symm hne)
    · omega
    · -- the first option inside the message is this one
      obtain ⟨hcomes', hinside'⟩ := comesTo_of_isFirstOption hcomes.1 hfirst
      rw [← comesTo_unique hcomes hcomes'] at hinside'
      exact hinside hinside'
  · intro hwhere
    refine ⟨by rw [length_put hchksum, length_put hzero, length_put haddr], fun i hne => ?_⟩
    by_cases hfield : d.hdr + d.offset + 2 ≤ i ∧ i < d.hdr + d.offset + 4
    · exact ⟨by omega, by omega, .inl hfield⟩
    rw [getElem?_replaced haddr hzero hchksum hfield] at hne
    split at hne
    · next hin =>
      rcases hwhere with hinside | hthere
      · have hfirst := isFirstOption_of_comesTo hcomes hinside
        have ⟨_, _, len, hlen, hlenNe, hend⟩ := hfirst
        have height := eight_le_mul hlenNe
        refine ⟨by omega, by omega, .inr ⟨o, hfirst, by omega, by omega⟩⟩
      · have hold := getElem?_fetch hthere (show i - (d.hdr + (o + 2)) < 6 by omega)
        rw [Nat.add_sub_cancel' hin.1] at hold
        exact absurd hold.symm hne
    · exact absurd rfl hne

end

/-! ## The checksum -/

theorem msgLen_eq (h : d.offset ≤ d.msgEnd) :
    (d.leftLen d.options).setWidth 16 = ofNat 16 (d.msgEnd - d.offset) ∧
      (ofNat 16 (d.msgEnd - d.offset)).toNat = d.msgEnd - d.offset := by
  have hend := d.msgEnd_lt
  have hle := d.ipv6HdrLen_le_offset
  have hfixed := d.fixedLen_bounds
  constructor
  · apply eq_of_toNat_eq
    rw [BitVec.toNat_setWidth, leftLen, options, toNat_sub, toNat_ofNat,
      toNat_ofNat, toNat_ofNat]
    omega
  · rw [toNat_ofNat]
    exact Nat.mod_eq_of_lt (by omega)

/-- **The new checksum is right**, if the length of the message is a multiple of four. -/
theorem checksum_replaced {buf₁ buf₂ : List FrameByte} (hsize : buf₁.length = d.skb.buf.length)
    (hzero : put buf₁ (d.hdr + d.offset + 2) (ushortBytes 0) = some buf₂)
    (hholds : d.offset + 4 ≤ d.msgEnd) (hfits : d.hdr + d.msgEnd ≤ d.skb.buf.length)
    (hfour : (d.msgEnd - d.offset) % 4 = 0) : ∃ chksum buf₃,
      icmpv6Csum buf₂ (d.hdr + 8) (d.hdr + 24) ((d.leftLen d.options).setWidth 16)
        ipv6NextHeaderIcmpv6 (d.hdr + d.offset) = some chksum ∧
      put buf₂ (d.hdr + d.offset + 2) (ushortBytes chksum) = some buf₃ ∧ d.ChecksumValid buf₃ := by
  have hle := d.ipv6HdrLen_le_offset
  obtain ⟨hlen, hlenNat⟩ := d.msgLen_eq (by omega)
  have hsize₂ := (length_put hzero).trans hsize
  obtain ⟨addrs, haddrs⟩ := isSome_iff_exists.mp
    (fetch_isSome_iff.mpr (show d.hdr + 8 + 32 ≤ buf₂.length by omega))
  obtain ⟨old, hold⟩ := isSome_iff_exists.mp
    (fetch_isSome_iff.mpr (show d.hdr + d.offset + (d.msgEnd - d.offset) ≤ buf₁.length by omega))
  have holdLen := length_fetch hold
  -- the message with 0 in the place of its checksum, and with the checksum
  have hmsg := fetch_put hold hzero (show 2 + 2 ≤ d.msgEnd - d.offset by omega)
  rw [length_ushortBytes] at hmsg
  rw [← hlenNat] at hmsg
  obtain ⟨chksum, hchksum, hresidue⟩ := icmpv6Csum_spec (by rw [hlenNat]; exact hfour) haddrs hmsg
  rw [hlenNat] at hmsg
  obtain ⟨buf₃, hput⟩ := isSome_iff_exists.mp (put_isSome_iff.mpr
    (show d.hdr + d.offset + 2 + (ushortBytes chksum).length ≤ buf₂.length by
      rw [length_ushortBytes]
      omega))
  refine ⟨chksum, buf₃, by rw [hlen]; exact hchksum, hput, hholds, addrs,
    old.take 2 ++ (ushortBytes chksum ++ old.drop 4), ?_, ?_, ?_⟩
  · rw [fetch_put_of_disjoint hput (by omega)]
    exact haddrs
  · have hmsg' := fetch_put hmsg hput (show 2 + 2 ≤ d.msgEnd - d.offset by omega)
    have htake : (old.take 2).length = 2 := by
      rw [length_take]
      omega
    have hfront : (old.take 2 ++ (ushortBytes 0 ++ old.drop (2 + 2))).take 2 = old.take 2 :=
      take_left' htake
    have hback : (old.take 2 ++ (ushortBytes 0 ++ old.drop (2 + 2))).drop (2 + 2) = old.drop 4 := by
      rw [← append_assoc]
      exact drop_left' (by rw [length_append, htake, length_ushortBytes])
    rw [length_ushortBytes, hfront, hback] at hmsg'
    exact hmsg'
  · have hbyte : ipv6NextHeaderIcmpv6 ∈
        pseudoHdr addrs (ofNat 16 (d.msgEnd - d.offset)) ++
          (old.take 2 ++ (ushortBytes chksum ++ old.drop 4)) := by
      simp [pseudoHdr]
    refine onesSum_words16_eq_allOnes ?_ hbyte (by decide)
    rw [← append_assoc] at hresidue ⊢
    refine bytesResidue_checked ?_ hresidue
    simp only [pseudoHdr, length_append, length_take, length_be16, length_fetch haddrs,
      length_cons, length_nil]
    omega

/-! ## The packets that are rewritten -/

theorem replaceLlAddr_eq_some_iff {mem mem' : List FrameByte} {p icmpOffset offset : Nat}
    {icmpMsgLen : BitVec 32} {mac : MacAddr} :
    replaceLlAddr mem p icmpOffset offset icmpMsgLen mac = some mem' ↔
      ∃ mem₁ mem₂ chksum, put mem (p + offset) (ofFn mac) = some mem₁ ∧
        put mem₁ (p + icmpOffset + 2) (ushortBytes 0) = some mem₂ ∧
          icmpv6Csum mem₂ (p + 8) (p + 24) (icmpMsgLen.setWidth 16) ipv6NextHeaderIcmpv6
            (p + icmpOffset) = some chksum ∧
            put mem₂ (p + icmpOffset + 2) (ushortBytes chksum) = some mem' := by
  constructor
  · intro h
    obtain ⟨mem₁, haddr, h⟩ := bind_eq_some_iff.mp h
    obtain ⟨mem₂, hzero, h⟩ := bind_eq_some_iff.mp h
    obtain ⟨chksum, hchksum, h⟩ := bind_eq_some_iff.mp h
    exact ⟨mem₁, mem₂, chksum, haddr, hzero, hchksum, h⟩
  · rintro ⟨mem₁, mem₂, chksum, haddr, hzero, hchksum, h⟩
    rw [replaceLlAddr, haddr]
    simp only [bind_eq_bind, bind_some]
    rw [hzero]
    simp only [bind_some]
    rw [hchksum]
    exact h

theorem icmpv6Csum_eq_zero {mem : List FrameByte} {saddr daddr pICMPMsg : Nat} {len : BitVec 16}
    {proto : FrameByte} (h : len.toNat % 4 ≠ 0) :
    icmpv6Csum mem saddr daddr len proto pICMPMsg = some 0 := if_pos h

theorem exists_put_addr {mac : MacAddr} (hcomes : d.ComesTo o)
    (hfits : d.hdr + d.msgEnd ≤ d.skb.buf.length)
    (hwhere : d.EndsInside o ∨ fetch d.skb.buf (d.hdr + (o + 2)) 6 = some (ofFn mac)) :
    ∃ buf₁, put d.skb.buf (d.hdr + (o + 2)) (ofFn mac) = some buf₁ := by
  rcases hwhere with ⟨len, hlen, hend⟩ | hthere
  · obtain ⟨-, -, -, -, len', hlen', hne⟩ := hcomes
    obtain rfl : len = len' := some.inj (hlen.symm.trans hlen')
    have height := eight_le_mul hne
    apply isSome_iff_exists.mp
    rw [put_isSome_iff, length_ofFn]
    omega
  · exact ⟨_, put_of_fetch hthere⟩

/-- **Which packets are rewritten as they should be.** -/
theorem rewritesWell_iff (d : NdPkt) (mac : MacAddr) (copyAlloc : Bool) :
    d.RewritesWell mac copyAlloc ↔ d.RightWhen mac := by
  rw [rewritesWell_iff_search, search_eq_none_iff, RightWhen]
  refine or_congr_right ⟨?_, ?_⟩
  · rintro ⟨pSrcMac, buf, hsearch, hreplace, hchanges, hvalid⟩
    obtain ⟨o, hcomes, rfl⟩ := search_eq_some_iff.mp hsearch
    obtain ⟨buf₁, buf₂, chksum, haddr, hzero, hchksum, hput⟩ :=
      replaceLlAddr_eq_some_iff.mp hreplace
    have hholds := hvalid.1
    obtain ⟨hlen, hlenNat⟩ := d.msgLen_eq (by omega)
    have hfits : d.hdr + d.msgEnd ≤ d.skb.buf.length := by
      obtain ⟨-, addrs, msg, -, hmsg, -⟩ := hvalid
      have hroom := (fetch_eq_some_iff.mp hmsg).1
      rw [length_put hput, length_put hzero, length_put haddr] at hroom
      omega
    refine ⟨o, hcomes, hholds, hfits,
      (changesOnly_iff haddr hzero hput hcomes hholds).mp hchanges, ?_⟩
    by_cases hfour : (d.msgEnd - d.offset) % 4 = 0
    · exact .inl hfour
    · -- the checksum that is stored is the 0 that is there already
      rw [hlen, icmpv6Csum_eq_zero (by rw [hlenNat]; exact hfour)] at hchksum
      obtain rfl := Option.some.inj hchksum
      obtain rfl : buf₂ = buf :=
        Option.some.inj ((put_of_fetch (fetch_put_self hzero)).symm.trans hput)
      exact .inr ⟨buf₁, buf₂, haddr, hzero, hvalid⟩
  · rintro ⟨o, hcomes, hholds, hfits, hwhere, hright⟩
    obtain ⟨hlen, hlenNat⟩ := d.msgLen_eq (by omega)
    obtain ⟨buf₁, haddr⟩ := exists_put_addr hcomes hfits hwhere
    have hsize := length_put haddr
    obtain ⟨buf₂, hzero⟩ := Option.isSome_iff_exists.mp (put_isSome_iff.mpr
      (show d.hdr + d.offset + 2 + (ushortBytes 0).length ≤ buf₁.length by
        rw [length_ushortBytes]
        omega))
    have hfinish : ∀ {chksum buf₃},
        icmpv6Csum buf₂ (d.hdr + 8) (d.hdr + 24) ((d.leftLen d.options).setWidth 16)
          ipv6NextHeaderIcmpv6 (d.hdr + d.offset) = some chksum →
        put buf₂ (d.hdr + d.offset + 2) (ushortBytes chksum) = some buf₃ → d.ChecksumValid buf₃ →
        ∃ pSrcMac buf, d.search = some (some pSrcMac) ∧
          replaceLlAddr d.skb.buf d.hdr d.offset pSrcMac (d.leftLen d.options) mac = some buf ∧
            d.ChangesOnly buf ∧ d.ChecksumValid buf := by
      intro chksum buf₃ hchksum hput hvalid
      exact ⟨o + 2, buf₃, search_of_comesTo hcomes,
        replaceLlAddr_eq_some_iff.mpr ⟨buf₁, buf₂, chksum, haddr, hzero, hchksum, hput⟩,
        (changesOnly_iff haddr hzero hput hcomes hholds).mpr hwhere, hvalid⟩
    by_cases hfour : (d.msgEnd - d.offset) % 4 = 0
    · obtain ⟨chksum, buf₃, hchksum, hput, hvalid⟩ :=
        checksum_replaced hsize hzero hholds hfits hfour
      exact hfinish hchksum hput hvalid
    · obtain ⟨buf₁', buf₂', haddr', hzero', hvalid⟩ := hright.resolve_left hfour
      obtain rfl : buf₁ = buf₁' := Option.some.inj (haddr.symm.trans haddr')
      obtain rfl : buf₂ = buf₂' := Option.some.inj (hzero.symm.trans hzero')
      have hchksum : icmpv6Csum buf₂ (d.hdr + 8) (d.hdr + 24) ((d.leftLen d.options).setWidth 16)
          ipv6NextHeaderIcmpv6 (d.hdr + d.offset) = some 0 := by
        rw [hlen]
        exact icmpv6Csum_eq_zero (by rw [hlenNat]; exact hfour)
      exact hfinish hchksum (put_of_fetch (fetch_put_self hzero)) hvalid

/-- A neighbour solicitation without options, and a trailer that looks like one. -/
def trailerSkb : Skb where
  buf := [0x33, 0x33, 0xff, 0, 0, 2, 2, 0, 0, 0, 0, 1, 0x86, 0xdd] ++
    ([0x60, 0, 0, 0, 0, 24, 0x3a, 0xff] ++
      ([0xfe, 0x80, 0, 0, 0, 0, 0, 0, 0, 0, 0, 0, 0, 0, 0, 1] ++
        ([0xff, 2, 0, 0, 0, 0, 0, 0, 0, 0, 0, 1, 0xff, 0, 0, 2] ++
          ([0x87, 0, 0x7d, 0xa1, 0, 0, 0, 0] ++
            ([0xfe, 0x80, 0, 0, 0, 0, 0, 0, 0, 0, 0, 0, 0, 0, 0, 2] ++
              [1, 1, 0, 0, 0, 0, 0, 0])))))
  len := 86
  cloned := false

def trailerPkt : NdPkt where
  skb := trailerSkb
  offset := 40
  payloadLen := 24
  type := icmpv6MsgTypeNeighborSolicitation
  fixedLen := neighborSolicitationFixedLen
  wanted := typeSrcLlAddr
  size_lt := by decide
  upperLayer_eq := by decide
  payloadLen_eq := by decide
  type_eq := by decide
  ndMessage_eq := by decide

/-- **Counterexample**: the address is written behind the message. -/
theorem not_rewritesWell_trailer : ¬ trailerPkt.RewritesWell (station 9) true := by
  rintro ⟨pSkb, newSkb, hout, ⟨-, hframe⟩, -⟩
  have hbyte : (icmpv6HandleTx trailerPkt.skb trailerPkt.hdr (station 9) trailerPkt.offset true).map
      (fun out => out.1.buf[80]?) = some (some 2) := by decide
  rw [hout, Option.map_some, Option.some.injEq] at hbyte
  obtain ⟨-, hend, -⟩ := hframe 80 (by
    rw [hbyte]
    decide)
  exact absurd hend (by decide)

end NdPkt

end RalinkSdk.Mat
