import RalinkSdk.Dot1x.EapolSm
import RalinkSdk.Lib.Region

/-!
# Frames from stations

A frame goes through four functions.  `Handle_read` finds the ethertype, behind a VLAN tag if there
is one, and the interface; `ieee802_1x_receive` skips an LLC/SNAP header and reads the EAPOL header;
`handle_eap` reads the EAP header, and `handle_eap_response` copies the packet.  Each of them is
handed a pointer into the frame and a length, and they disagree about where the frame ends: the
LLC/SNAP header is skipped without being taken off the length.

A pointer is an offset from the start of the frame.  The functions return `none` where the code
reads a byte that was not received.  Stations, their state machines and the allocations are
parameters.

## Source

`user/802.1x/rtdot1x.c`, `ieee802_1x.c`, `rtdot1x.h`, `ieee802_1x.h`.
-/

namespace RalinkSdk.Dot1x

open Lib List Option
open BitVec (ofNat eq_of_toNat_eq le_def toNat_add toNat_ofNat toNat_sub)

/-! ## Data -/

def privRecHdrLen : Nat := 14

def length8021H : Nat := 8

def length8021xHdr : Nat := 4

def lengthEapHdr : Nat := 4

def ethPPae : BitVec 16 := 0x888E

def ethPPreAuth : BitVec 16 := 0x88C7

def ethPVlan : BitVec 16 := 0x8100

def snap8021H : List (BitVec 8) := [0xaa, 0xaa, 0x03, 0x00, 0x00, 0x00]

/-- The part of `RalinkIe` that is compared. -/
def ralinkIe : List (BitVec 8) := [221, 7, 0x00, 0x0c, 0x43]

def ralinkIeLen : BitVec 32 := 9

/-- What a frame changes in `struct sta_info`. -/
structure Supplicant where
  lastEapSupp : Option (List (BitVec 8))
  identity : Option (List (BitVec 8))
  eapolSm : Option EapolSm

/-- What the functions find outside the frame: the addresses of the interfaces, what `Ap_get_sta`
    returns for an address, what `eapol_sm_alloc` returns, and the other allocations. -/
structure ReadEnv where
  ownAddr : List (List (BitVec 8))
  sta : List (BitVec 8) → Option Supplicant
  sm : Option EapolSm
  mem : Nat → Bool

/-- What comes of a frame: nothing, a command of the driver, or a station as it is when
    `eapol_sm_step` is called at last. -/
inductive ReadResult where
  | dropped
  | disconnect (addr : List (BitVec 8))
  | reloadConfig
  | unknownCommand
  | station (addr : List (BitVec 8)) (sta : Supplicant)

/-! ## The functions -/

variable (frame : List (BitVec 8))

/-- Two bytes in network order. -/
def readBe16 (p : Nat) : Option (BitVec 16) := do
  let high ← frame[p]?
  let low ← frame[p + 1]?
  some (high ++ low)

/-- `RTMPCompareMemory`, which reads up to the first difference: whether it returns 0. -/
def rtmpCompareMemory : Nat → List (BitVec 8) → Option Bool
  | _, [] => some true
  | p, b :: bs => do
    let c ← frame[p]?
    if c = b then rtmpCompareMemory (p + 1) bs else some false

/-- `handle_eap_response` for the header at `eap` and `len` bytes at `data`. -/
def handleEapResponse (sta : Supplicant) (sm : EapolSm) (mem : Nat → Bool) (eap data len : Nat) :
    Option Supplicant := do
  let identifier ← frame[eap + 1]?
  if identifier ≠ sm.currentId then some sta
  else if len < 1 then some sta
  else if !mem 0 then some { sta with lastEapSupp := none }
  else do
    let hdr ← fetch frame eap lengthEapHdr
    let bytes ← fetch frame data len
    let sta := { sta with lastEapSupp := some (hdr ++ bytes) }
    let type ← frame[data]?
    -- `EAP_TYPE_IDENTITY`
    if type = 1 then do
      let sta := { sta with eapolSm := some (sm.raise .rxInitialRsp) }
      if mem 1 then do
        let identity ← fetch frame (data + 1) (len - 1)
        some { sta with identity := some identity }
      else some { sta with identity := none }
    else some { sta with eapolSm := some (sm.raise .rxResp) }

/-- `handle_eap` for `len` bytes at `buf`. -/
def handleEap (sta : Supplicant) (sm : EapolSm) (mem : Nat → Bool) (buf len : Nat) :
    Option Supplicant :=
  if len < lengthEapHdr then some sta
  else do
    let code ← frame[buf]?
    let eapLen ← readBe16 frame (buf + 2)
    if eapLen.toNat < lengthEapHdr then some sta
    else if len < eapLen.toNat then some sta
    -- `EAP_CODE_RESPONSE`
    else if code = 2 then
      handleEapResponse frame sta sm mem buf (buf + lengthEapHdr) (eapLen.toNat - length8021xHdr)
    else some sta

/-- `ieee802_1x_receive`; the length is a `size_t`. -/
def ieee8021xReceive (env : ReadEnv) (sa : List (BitVec 8)) (buf : Nat) (len : BitVec 32)
    (ethertype : BitVec 16) : Option ReadResult :=
  match env.sta sa with
  | none => some .dropped
  | some sta => do
    let snap ← rtmpCompareMemory frame buf snap8021H
    -- the header is skipped, but `len` stays as it is
    let buf := if snap then buf + length8021H else buf
    let datalen ← readBe16 frame (buf + 2)
    if len - ofNat 32 length8021xHdr < datalen.setWidth 32 then some (.station sa sta)
    else
      match sta.eapolSm.or env.sm with
      | none => some (.station sa sta)
      | some sm => do
        let sta := { sta with eapolSm := some sm }
        if ethertype ≠ ethPPae ∧ ethertype ≠ ethPPreAuth then some (.station sa sta)
        else do
          let version ← frame[buf]?
          if version ≠ 1 ∧ version ≠ 2 then some (.station sa sta)
          else do
            let type ← frame[buf + 1]?
            match type.toNat with
            -- `IEEE802_1X_TYPE_EAP_PACKET`
            | 0 => do
              let sta ← handleEap frame sta sm env.mem (buf + length8021xHdr) datalen.toNat
              some (.station sa sta)
            -- `IEEE802_1X_TYPE_EAPOL_START`
            | 1 => some (.station sa { sta with eapolSm := some (sm.raise .eapStart) })
            -- `IEEE802_1X_TYPE_EAPOL_LOGOFF`
            | 2 => some (.station sa { sta with eapolSm := some (sm.raise .eapLogoff) })
            | _ => some (.station sa sta)

/-- The ethertype of `Handle_read`, and whether it stands behind a VLAN tag. -/
def readEthertype (left : BitVec 32) : Option (BitVec 16 × Bool) := do
  let ethertype ← readBe16 frame 12
  if ethertype = ethPVlan then do
    let ethertype ←
      if (4 : BitVec 32) ≤ left then readBe16 frame (privRecHdrLen + 2) else some ethertype
    some (ethertype, ethertype = ethPPreAuth || ethertype = ethPPae)
  else some (ethertype, false)

/-- `Handle_read` for the bytes `recv` returns. -/
def handleRead (env : ReadEnv) : Option ReadResult :=
  let left := ofNat 32 frame.length - 15 + 1
  if left ≤ 0 then some .dropped
  else do
    let (ethertype, isVlanTag) ← readEthertype frame left
    if ethertype = ethPPreAuth ∨ ethertype = ethPPae then do
      let da ← fetch frame 0 6
      if env.ownAddr.all fun addr => da ≠ addr then some .dropped
      else do
        let pos := if isVlanTag then privRecHdrLen + 4 else privRecHdrLen
        let left := if isVlanTag then left - 4 else left
        let sa ← fetch frame 6 6
        let command ←
          if left = ralinkIeLen then rtmpCompareMemory frame pos ralinkIe else some false
        if command then do
          let icmd ← frame[pos + 5]?
          match icmd.toNat with
          -- `DOT1X_DISCONNECT_ENTRY`
          | 0 => some (.disconnect sa)
          -- `DOT1X_RELOAD_CONFIG`
          | 1 => some .reloadConfig
          | _ => some .unknownCommand
        else ieee8021xReceive frame env sa pos left ethertype
    else some .dropped

/-- What `recv` reads of a frame. -/
def received : List (BitVec 8) := frame.take 3000

/-! ## What is in a frame -/

/-- A byte of a frame, zero behind its end. -/
def octet (p : Nat) : BitVec 8 := frame.getD p 0

/-- Two bytes of a frame in network order. -/
def field (p : Nat) : BitVec 16 := octet frame p ++ octet frame (p + 1)

/-- Where the payload of a frame for the daemon begins. -/
def payloadOffset : Option Nat :=
  if field frame 12 = ethPPreAuth ∨ field frame 12 = ethPPae then some privRecHdrLen
  else if field frame 12 = ethPVlan ∧ privRecHdrLen + 4 ≤ frame.length ∧
      (field frame (privRecHdrLen + 2) = ethPPreAuth ∨ field frame (privRecHdrLen + 2) = ethPPae) then
    some (privRecHdrLen + 4)
  else none

/-- Where the EAPOL header of a payload at `pos` is. -/
def eapolOffset (pos : Nat) : Nat :=
  if snap8021H <+: frame.drop pos then pos + length8021H else pos

/-- The EAP packet at `buf`, as long as its header says. -/
def eapPacket (buf : Nat) : List (BitVec 8) := (frame.drop buf).take (field frame (buf + 2)).toNat

/-- Of the packet at `buf` nothing but its own bytes has been copied. -/
structure CopiesPacket (buf : Nat) (before after : Supplicant) : Prop where
  lastEapSupp : after.lastEapSupp = before.lastEapSupp ∨ after.lastEapSupp = none ∨
    after.lastEapSupp = some (eapPacket frame buf)
  identity : after.identity = before.identity ∨ after.identity = none ∨
    after.identity = some ((eapPacket frame buf).drop 5)

/-- **A frame is processed inside**: in no state of the daemon a byte behind the frame is read, and
    only bytes of its EAP packet are copied. -/
def StaysInside : Prop :=
  ∀ env, ∃ r, handleRead frame env = some r ∧
    ∀ sa after, r = .station sa after → ∃ before pos, env.sta sa = some before ∧
      payloadOffset frame = some pos ∧
        CopiesPacket frame (eapolOffset frame pos + length8021xHdr) before after

/-! ## Which frames are processed inside -/

/-- The EAP packet at `buf` lies in the frame as far as it is looked at, when the EAPOL header allows
    it `len` bytes. -/
def EapReadable (buf len : Nat) : Prop :=
  len < lengthEapHdr ∨ buf + lengthEapHdr ≤ frame.length ∧
    ((field frame (buf + 2)).toNat ≤ lengthEapHdr ∨ len < (field frame (buf + 2)).toNat ∨
      octet frame buf ≠ 2 ∨ buf + (field frame (buf + 2)).toNat ≤ frame.length)

/-- The payload at `pos` can be read.  Without an LLC/SNAP header it must have an EAPOL header, and be
    no piece of an LLC/SNAP header.  With one, the EAPOL header must be there, and an EAP packet that
    the length test lets pass must be in the frame as far as it is looked at. -/
def PayloadReadable (pos : Nat) : Prop :=
  if snap8021H <+: frame.drop pos then
    let buf := pos + length8021H
    buf + length8021xHdr ≤ frame.length ∧
      (frame.length < pos + length8021xHdr + (field frame (buf + 2)).toNat ∨
        octet frame buf ≠ 1 ∧ octet frame buf ≠ 2 ∨ octet frame (buf + 1) ≠ 0 ∨
          EapReadable frame (buf + length8021xHdr) (field frame (buf + 2)).toNat)
  else pos + length8021xHdr ≤ frame.length ∧ ¬ frame.drop pos <+: snap8021H

def DriverCommand (pos : Nat) : Prop :=
  frame.length = pos + ralinkIeLen.toNat ∧ ralinkIe <+: frame.drop pos

/-- The frame has its header, and if it is for the daemon and has a payload, this is a command of the
    driver or can be read. -/
def FrameReadable : Prop :=
  privRecHdrLen ≤ frame.length ∧
    (frame.length = privRecHdrLen ∨ ∀ pos, payloadOffset frame = some pos →
      DriverCommand frame pos ∨ PayloadReadable frame pos)

variable {frame}

/-! ## Reading -/

theorem getElem?_octet {p : Nat} (h : p < frame.length) : frame[p]? = some (octet frame p) := by
  rw [getElem?_eq_getElem h, octet, getD_eq_getElem _ _ h]

theorem readBe16_field {p : Nat} (h : p + 2 ≤ frame.length) :
    readBe16 frame p = some (field frame p) := by
  have hp : p < frame.length := by omega
  have hp' : p + 1 < frame.length := by omega
  simp only [readBe16, getElem?_octet hp, getElem?_octet hp', bind_eq_bind, bind_some]
  rfl

theorem readBe16_none {p : Nat} (h : frame.length < p + 2) : readBe16 frame p = none := by
  have hp : frame[p + 1]? = none := getElem?_eq_none (by omega)
  simp only [readBe16, hp, bind_eq_bind, bind_none]
  cases frame[p]? with
  | none => rfl
  | some b => rfl

/-- **`RTMPCompareMemory`** goes behind the frame if the frame ends within what is looked for. -/
theorem rtmpCompareMemory_eq (p : Nat) (bs : List (BitVec 8)) : rtmpCompareMemory frame p bs =
      if bs <+: frame.drop p then some true
      else if frame.drop p <+: bs then none else some false := by
  induction bs generalizing p with
  | nil => rw [rtmpCompareMemory, if_pos nil_prefix]
  | cons b bs ih =>
    rw [rtmpCompareMemory]
    by_cases hp : p < frame.length
    · rw [drop_eq_getElem_cons hp, getElem?_eq_getElem hp]
      simp only [bind_eq_bind, bind_some, cons_prefix_cons]
      by_cases hb : frame[p] = b
      · simp only [hb, if_true, true_and, ih]
      · have hb' : ¬ b = frame[p] := fun h => hb h.symm
        simp only [hb, hb', if_false, false_and]
    · have hnone : frame[p]? = none := getElem?_eq_none (Nat.le_of_not_lt hp)
      have hdrop : frame.drop p = [] := drop_eq_nil_of_le (Nat.le_of_not_lt hp)
      rw [hnone, hdrop, if_neg (by simp), if_pos nil_prefix]
      rfl

/-! ## EAP packets -/

/-- **`handle_eap_response`** reads what its length says. -/
theorem handleEapResponse_inside (sta : Supplicant) (sm : EapolSm) (mem : Nat → Bool) {eap len : Nat}
    (hhdr : eap + lengthEapHdr ≤ frame.length)
    (hroom : 1 ≤ len → eap + (lengthEapHdr + len) ≤ frame.length)
    (hlen : (field frame (eap + 2)).toNat = lengthEapHdr + len) :
    ∃ after, handleEapResponse frame sta sm mem eap (eap + lengthEapHdr) len = some after ∧
      CopiesPacket frame eap sta after := by
  have hsame : CopiesPacket frame eap sta sta := ⟨.inl rfl, .inl rfl⟩
  have hid : eap + 1 < frame.length := by
    rw [lengthEapHdr] at hhdr
    omega
  rw [handleEapResponse, getElem?_octet hid]
  simp only [bind_eq_bind, bind_some]
  split
  · exact ⟨sta, rfl, hsame⟩
  split
  · exact ⟨sta, rfl, hsame⟩
  next hpos =>
  split
  · exact ⟨_, rfl, .inr (.inl rfl), .inl rfl⟩
  -- the packet is copied
  have hbytes := hroom (Nat.le_of_not_lt hpos)
  have hpacket : eapPacket frame eap = (frame.drop eap).take (lengthEapHdr + len) := by
    rw [eapPacket, hlen]
  have hcopy : fetch frame eap lengthEapHdr = some ((eapPacket frame eap).take lengthEapHdr) := by
    rw [fetch_eq_some_iff, hpacket, take_take, Nat.min_eq_left (Nat.le_add_right _ _)]
    exact ⟨hhdr, rfl⟩
  have hcopy' : fetch frame (eap + lengthEapHdr) len =
      some ((eapPacket frame eap).drop lengthEapHdr) := by
    rw [fetch_eq_some_iff, hpacket, drop_take, drop_drop, Nat.add_sub_cancel_left]
    exact ⟨by omega, rfl⟩
  have htype : eap + lengthEapHdr < frame.length := by omega
  have hidentity : fetch frame (eap + lengthEapHdr + 1) (len - 1) =
      some ((eapPacket frame eap).drop 5) := by
    have hfive : (eapPacket frame eap).drop 5 = ((eapPacket frame eap).drop lengthEapHdr).drop 1 := by
      rw [drop_drop]
      rfl
    rw [hfive]
    exact fetch_drop hcopy' (Nat.le_of_not_lt hpos)
  simp only [hcopy, hcopy', getElem?_octet htype, hidentity, bind_some, take_append_drop]
  split
  · split
    · exact ⟨_, rfl, .inr (.inr rfl), .inr (.inr rfl)⟩
    · exact ⟨_, rfl, .inr (.inr rfl), .inr (.inl rfl)⟩
  · exact ⟨_, rfl, .inr (.inr rfl), .inl rfl⟩

theorem handleEapResponse_outside (sta : Supplicant) {sm : EapolSm} {eap len : Nat}
    (hid : frame[eap + 1]? = some sm.currentId) (hpos : 1 ≤ len)
    (hroom : frame.length < eap + (lengthEapHdr + len)) :
    handleEapResponse frame sta sm (fun _ => true) eap (eap + lengthEapHdr) len = none := by
  have hout : fetch frame (eap + lengthEapHdr) len = none := by
    rw [← not_isSome_iff_eq_none, fetch_isSome_iff]
    omega
  rw [handleEapResponse, hid]
  simp only [bind_eq_bind, bind_some, ne_eq, not_true_eq_false, if_false,
    if_neg (Nat.not_lt.mpr hpos), Bool.not_true, Bool.false_eq_true, hout, bind_none]
  cases fetch frame eap lengthEapHdr with
  | none => rfl
  | some bytes => rfl

/-- **`handle_eap`** stays inside where the packet lies in the frame. -/
theorem handleEap_inside (sta : Supplicant) (sm : EapolSm) (mem : Nat → Bool) {buf len : Nat}
    (h : EapReadable frame buf len) :
    ∃ after, handleEap frame sta sm mem buf len = some after ∧ CopiesPacket frame buf sta after := by
  have hsame : CopiesPacket frame buf sta sta := ⟨.inl rfl, .inl rfl⟩
  rw [handleEap]
  rcases h with hshort | ⟨hhdr, hpacket⟩
  · rw [if_pos hshort]
    exact ⟨sta, rfl, hsame⟩
  split
  · exact ⟨sta, rfl, hsame⟩
  have hcode : buf < frame.length := by
    rw [lengthEapHdr] at hhdr
    omega
  have hlen : buf + 2 + 2 ≤ frame.length := hhdr
  simp only [getElem?_octet hcode, readBe16_field hlen, bind_eq_bind, bind_some]
  split
  · exact ⟨sta, rfl, hsame⟩
  next hmin =>
  split
  · exact ⟨sta, rfl, hsame⟩
  next hmax =>
  split
  · next hresponse =>
    -- four bytes of the length are those of the header
    refine handleEapResponse_inside sta sm mem hhdr (fun hpos => ?_) ?_
    · simp only [length8021xHdr, lengthEapHdr] at hpos hpacket ⊢
      rcases hpacket with h | h | h | h
      · omega
      · omega
      · exact absurd hresponse h
      · omega
    · simp only [length8021xHdr, lengthEapHdr] at hmin ⊢
      omega
  · exact ⟨sta, rfl, hsame⟩

theorem handleEap_outside (sta : Supplicant) {sm : EapolSm} {buf len : Nat}
    (h : ¬ EapReadable frame buf len) (hid : sm.currentId = octet frame (buf + 1)) :
    handleEap frame sta sm (fun _ => true) buf len = none := by
  rw [EapReadable, not_or, not_and_or] at h
  obtain ⟨hlen, hout⟩ := h
  rw [handleEap, if_neg hlen]
  by_cases hhdr : buf + lengthEapHdr ≤ frame.length
  case neg =>
    have hnone : readBe16 frame (buf + 2) = none := readBe16_none (Nat.lt_of_not_le hhdr)
    rw [hnone]
    cases frame[buf]? with
    | none => rfl
    | some b => rfl
  have hpacket := hout.resolve_left (not_not.mpr hhdr)
  simp only [not_or, Nat.not_le, Nat.not_lt, not_not] at hpacket
  obtain ⟨hmin, hmax, hcode, hroom⟩ := hpacket
  simp only [lengthEapHdr] at hhdr hmin hlen
  have hbuf : buf < frame.length := by omega
  have hfield : buf + 2 + 2 ≤ frame.length := by omega
  have hident : buf + 1 < frame.length := by omega
  simp only [getElem?_octet hbuf, readBe16_field hfield, hcode, bind_eq_bind, bind_some,
    lengthEapHdr, length8021xHdr, if_true]
  rw [if_neg (by omega), if_neg (by omega)]
  apply handleEapResponse_outside
  · rw [getElem?_octet hident, hid]
  · omega
  · simp only [lengthEapHdr]
    omega

theorem EapReadable.of_fits {buf len : Nat} (h : buf + len ≤ frame.length) :
    EapReadable frame buf len := by
  by_cases hlen : len < lengthEapHdr
  · exact .inl hlen
  refine .inr ⟨by omega, ?_⟩
  by_cases hmax : len < (field frame (buf + 2)).toNat
  · exact .inr (.inl hmax)
  · exact .inr (.inr (.inr (by omega)))

/-! ## EAPOL headers -/

theorem too_short_iff {n : Nat} (hmin : length8021xHdr ≤ n) (hmax : n ≤ 3000) (datalen : BitVec 16) :
    ofNat 32 n - ofNat 32 length8021xHdr < datalen.setWidth 32 ↔
      n < length8021xHdr + datalen.toNat := by
  have hdata := datalen.isLt
  rw [length8021xHdr] at hmin ⊢
  rw [BitVec.lt_def, toNat_sub, BitVec.toNat_setWidth, toNat_ofNat, toNat_ofNat]
  omega

variable {pos : Nat}

theorem snap_eq (h : PayloadReadable frame pos) :
    rtmpCompareMemory frame pos snap8021H = some (decide (snap8021H <+: frame.drop pos)) ∧
      eapolOffset frame pos + length8021xHdr ≤ frame.length := by
  rw [rtmpCompareMemory_eq, eapolOffset]
  unfold PayloadReadable at h
  split
  · next hsnap =>
    rw [if_pos hsnap] at h
    exact ⟨by simp [hsnap], h.1⟩
  · next hsnap =>
    rw [if_neg hsnap] at h
    rw [if_neg h.2]
    exact ⟨by simp [hsnap], h.1⟩

theorem PayloadReadable.eap (h : PayloadReadable frame pos) (hpos : pos ≤ frame.length)
    (hfits : ¬ frame.length - pos < length8021xHdr +
      (field frame (eapolOffset frame pos + 2)).toNat)
    (hversion : octet frame (eapolOffset frame pos) = 1 ∨ octet frame (eapolOffset frame pos) = 2)
    (htype : octet frame (eapolOffset frame pos + 1) = 0) :
    EapReadable frame (eapolOffset frame pos + length8021xHdr)
      (field frame (eapolOffset frame pos + 2)).toNat := by
  unfold PayloadReadable at h
  unfold eapolOffset at hfits hversion htype ⊢
  split at h
  · next hsnap =>
    rw [if_pos hsnap] at hfits hversion htype ⊢
    rcases h.2 with hlong | hbad | hbad | hread
    · omega
    · rcases hversion with h1 | h2
      · exact absurd h1 hbad.1
      · exact absurd h2 hbad.2
    · exact absurd htype hbad
    · exact hread
  · next hsnap =>
    rw [if_neg hsnap] at hfits ⊢
    apply EapReadable.of_fits
    omega

theorem ieee8021xReceive_eq (env : ReadEnv) (sa : List (BitVec 8)) (ethertype : BitVec 16)
    {before : Supplicant} (hsta : env.sta sa = some before)
    (hsnap : rtmpCompareMemory frame pos snap8021H = some (decide (snap8021H <+: frame.drop pos)))
    (hhdr : eapolOffset frame pos + length8021xHdr ≤ frame.length) (len : BitVec 32) :
    ieee8021xReceive frame env sa pos len ethertype =
      if len - ofNat 32 length8021xHdr <
          (field frame (eapolOffset frame pos + 2)).setWidth 32 then some (.station sa before)
      else
        match before.eapolSm.or env.sm with
        | none => some (.station sa before)
        | some sm =>
          if ethertype ≠ ethPPae ∧ ethertype ≠ ethPPreAuth then
            some (.station sa { before with eapolSm := some sm })
          else if octet frame (eapolOffset frame pos) ≠ 1 ∧
              octet frame (eapolOffset frame pos) ≠ 2 then
            some (.station sa { before with eapolSm := some sm })
          else
            match (octet frame (eapolOffset frame pos + 1)).toNat with
            | 0 => (handleEap frame { before with eapolSm := some sm } sm env.mem
                (eapolOffset frame pos + length8021xHdr)
                (field frame (eapolOffset frame pos + 2)).toNat).map fun sta => .station sa sta
            | 1 => some (.station sa { before with eapolSm := some (sm.raise .eapStart) })
            | 2 => some (.station sa { before with eapolSm := some (sm.raise .eapLogoff) })
            | _ => some (.station sa { before with eapolSm := some sm }) := by
  have hbuf : (if snap8021H <+: frame.drop pos then pos + length8021H else pos) =
      eapolOffset frame pos := rfl
  rw [length8021xHdr] at hhdr
  have hfield : eapolOffset frame pos + 2 + 2 ≤ frame.length := hhdr
  have hversion : eapolOffset frame pos < frame.length := by omega
  have htype : eapolOffset frame pos + 1 < frame.length := by omega
  rw [ieee8021xReceive, hsta]
  simp only [hsnap, bind_eq_bind, bind_some, decide_eq_true_eq, hbuf,
    readBe16_field hfield, getElem?_octet hversion, getElem?_octet htype]
  split
  · rfl
  cases before.eapolSm.or env.sm with
  | none => rfl
  | some sm =>
    dsimp only
    split
    · rfl
    split
    · rfl
    split
    · rw [map_eq_bind]
      rfl
    · rfl
    · rfl
    · rfl

/-- **`ieee802_1x_receive`** stays inside with a payload that can be read. -/
theorem ieee8021xReceive_inside (env : ReadEnv) (sa : List (BitVec 8)) (ethertype : BitVec 16)
    (h : PayloadReadable frame pos) (hpos : pos ≤ frame.length) (hmax : frame.length ≤ 3000) :
    ∃ r, ieee8021xReceive frame env sa pos (ofNat 32 (frame.length - pos)) ethertype = some r ∧
      ∀ sa' after, r = .station sa' after → ∃ before, env.sta sa' = some before ∧
        CopiesPacket frame (eapolOffset frame pos + length8021xHdr) before after := by
  cases hsta : env.sta sa with
  | none =>
    refine ⟨.dropped, by rw [ieee8021xReceive, hsta], ?_⟩
    intro sa' after hr
    cases hr
  | some before =>
    -- nothing is copied unless it says so
    have hsame : ∀ sm, ∀ sa' after, ReadResult.station sa { before with eapolSm := sm } =
        .station sa' after → ∃ before, env.sta sa' = some before ∧
          CopiesPacket frame (eapolOffset frame pos + length8021xHdr) before after := by
      intro sm sa' after hr
      obtain ⟨rfl, rfl⟩ := ReadResult.station.inj hr
      exact ⟨before, hsta, .inl rfl, .inl rfl⟩
    obtain ⟨hsnap, hhdr⟩ := snap_eq h
    rw [ieee8021xReceive_eq env sa ethertype hsta hsnap hhdr]
    split
    · exact ⟨_, rfl, hsame before.eapolSm⟩
    next hfits =>
    cases before.eapolSm.or env.sm with
    | none => exact ⟨_, rfl, hsame before.eapolSm⟩
    | some sm =>
      dsimp only
      split
      · exact ⟨_, rfl, hsame (some sm)⟩
      split
      · exact ⟨_, rfl, hsame (some sm)⟩
      next hversion =>
      split
      · next htype =>
        have hroom : length8021xHdr ≤ frame.length - pos := by
          have hle : pos ≤ eapolOffset frame pos := by
            unfold eapolOffset
            split
            · omega
            · exact Nat.le_refl pos
          omega
        rw [too_short_iff hroom (by omega)] at hfits
        have hread := h.eap hpos hfits (by rw [not_and_or, not_not, not_not] at hversion; exact hversion)
          (eq_of_toNat_eq htype)
        obtain ⟨after, heap, hcopies⟩ :=
          handleEap_inside { before with eapolSm := some sm } sm env.mem hread
        rw [heap]
        refine ⟨_, rfl, ?_⟩
        intro sa' after' hr
        obtain ⟨rfl, rfl⟩ := ReadResult.station.inj hr
        exact ⟨before, hsta, hcopies.lastEapSupp, hcopies.identity⟩
      · exact ⟨_, rfl, hsame _⟩
      · exact ⟨_, rfl, hsame _⟩
      · exact ⟨_, rfl, hsame _⟩

/-- A daemon that looks at a frame as far as it can: the frame is for its interface, the station
    waits for the response in it, and memory is there. -/
def attentive (frame : List (BitVec 8)) (pos : Nat) : ReadEnv where
  ownAddr := [frame.take 6]
  sta := fun _ => some ⟨none, none, none⟩
  sm := some { eapolSmZero ⟨0, false, 0⟩ with
    currentId := octet frame (eapolOffset frame pos + length8021xHdr + 1) }
  mem := fun _ => true

theorem ieee8021xReceive_outside (sa : List (BitVec 8)) {ethertype : BitVec 16}
    (hethertype : ethertype = ethPPreAuth ∨ ethertype = ethPPae) (h : ¬ PayloadReadable frame pos)
    (hmax : frame.length ≤ 3000) :
    ieee8021xReceive frame (attentive frame pos) sa pos (ofNat 32 (frame.length - pos))
      ethertype = none := by
  have hcompare : rtmpCompareMemory frame pos snap8021H = _ := rtmpCompareMemory_eq pos snap8021H
  unfold PayloadReadable at h
  by_cases hsnap : snap8021H <+: frame.drop pos
  · rw [if_pos hsnap] at h hcompare
    have hoffset : eapolOffset frame pos = pos + length8021H := if_pos hsnap
    rw [not_and_or] at h
    by_cases hhdr : pos + length8021H + length8021xHdr ≤ frame.length
    case neg =>
      -- there is no EAPOL header
      have hnone : readBe16 frame (pos + length8021H + 2) = none := by
        apply readBe16_none
        rw [length8021xHdr] at hhdr
        omega
      simp only [ieee8021xReceive, attentive, hcompare, bind_eq_bind, bind_some, if_true,
        hnone, bind_none]
    have hcond := h.resolve_left (not_not.mpr hhdr)
    simp only [not_or, Nat.not_lt, not_and_or, not_not] at hcond
    obtain ⟨hfits, hversion, htype, heap⟩ := hcond
    rw [← hoffset] at hhdr hfits hversion htype heap
    have hsnap' : rtmpCompareMemory frame pos snap8021H =
        some (decide (snap8021H <+: frame.drop pos)) := by
      rw [hcompare]
      simp [hsnap]
    have hmin : length8021xHdr ≤ frame.length - pos := by
      rw [hoffset] at hhdr
      omega
    have hzero : (octet frame (eapolOffset frame pos + 1)).toNat = 0 := by rw [htype]; rfl
    have hversion' : ¬ (octet frame (eapolOffset frame pos) ≠ 1 ∧
        octet frame (eapolOffset frame pos) ≠ 2) := by
      rw [not_and_or, not_not, not_not]
      exact hversion
    have hethertype' : ¬ (ethertype ≠ ethPPae ∧ ethertype ≠ ethPPreAuth) := by
      rw [not_and_or, not_not, not_not]
      exact hethertype.symm
    rw [ieee8021xReceive_eq (attentive frame pos) sa ethertype rfl hsnap' hhdr,
      if_neg (by rw [too_short_iff hmin (by omega)]; omega)]
    have hsm : (none : Option EapolSm).or (attentive frame pos).sm = (attentive frame pos).sm := rfl
    simp only [hsm]
    rw [attentive]
    simp only [if_neg hethertype', if_neg hversion', hzero]
    rw [handleEap_outside _ heap rfl]
    rfl
  · rw [if_neg hsnap] at h hcompare
    by_cases hpiece : frame.drop pos <+: snap8021H
    · rw [if_pos hpiece] at hcompare
      simp only [ieee8021xReceive, attentive, hcompare, bind_eq_bind, bind_none]
    · rw [if_neg hpiece] at hcompare
      have hhdr : ¬ pos + length8021xHdr ≤ frame.length := fun hle => h ⟨hle, hpiece⟩
      have hnone : readBe16 frame (pos + 2) = none := by
        apply readBe16_none
        rw [length8021xHdr] at hhdr
        omega
      simp only [ieee8021xReceive, attentive, hcompare, bind_eq_bind, bind_some,
        Bool.false_eq_true, if_false, hnone, bind_none]

/-! ## Frames -/

theorem left_eq (hmin : privRecHdrLen ≤ frame.length) (hmax : frame.length ≤ 3000) :
    ofNat 32 frame.length - 15 + 1 = ofNat 32 (frame.length - privRecHdrLen) := by
  rw [privRecHdrLen] at hmin ⊢
  have h15 : (15 : BitVec 32).toNat = 15 := rfl
  have h1 : (1 : BitVec 32).toNat = 1 := rfl
  apply eq_of_toNat_eq
  simp only [toNat_add, toNat_sub, toNat_ofNat, h15, h1]
  omega

theorem left_ne_zero (hmin : privRecHdrLen < frame.length) (hmax : frame.length ≤ 3000) :
    ¬ ofNat 32 (frame.length - privRecHdrLen) ≤ 0 := by
  have h0 : (0 : BitVec 32).toNat = 0 := rfl
  rw [privRecHdrLen] at hmin ⊢
  rw [le_def, toNat_ofNat, h0]
  omega

theorem readEthertype_spec (hmin : privRecHdrLen < frame.length) (hmax : frame.length ≤ 3000) :
    ∃ ethertype isVlanTag,
      readEthertype frame (ofNat 32 (frame.length - privRecHdrLen)) =
        some (ethertype, isVlanTag) ∧
      ((ethertype = ethPPreAuth ∨ ethertype = ethPPae) →
        payloadOffset frame =
          some (if isVlanTag = true then privRecHdrLen + 4 else privRecHdrLen) ∧
        (isVlanTag = true → privRecHdrLen + 4 ≤ frame.length)) ∧
      (¬ (ethertype = ethPPreAuth ∨ ethertype = ethPPae) → payloadOffset frame = none) := by
  have hfirst : readBe16 frame 12 = some (field frame 12) := by
    apply readBe16_field
    rw [privRecHdrLen] at hmin
    omega
  have hleft : (4 : BitVec 32) ≤ ofNat 32 (frame.length - privRecHdrLen) ↔
      privRecHdrLen + 4 ≤ frame.length := by
    have h4 : (4 : BitVec 32).toNat = 4 := rfl
    rw [privRecHdrLen] at hmin ⊢
    rw [le_def, toNat_ofNat, h4]
    omega
  simp only [readEthertype, hfirst, bind_eq_bind, bind_some]
  by_cases hvlan : field frame 12 = ethPVlan
  · -- a VLAN tag, if there are four bytes of it
    have hno : ¬ (field frame 12 = ethPPreAuth ∨ field frame 12 = ethPPae) := by
      rw [hvlan]
      decide
    rw [if_pos hvlan]
    by_cases hroom : privRecHdrLen + 4 ≤ frame.length
    · rw [if_pos (hleft.mpr hroom), readBe16_field hroom]
      refine ⟨_, _, rfl, fun h => ⟨?_, fun _ => hroom⟩, fun h => ?_⟩
      · rw [payloadOffset, if_neg hno, if_pos ⟨hvlan, hroom, h⟩, if_pos (by simpa using h)]
      · rw [payloadOffset, if_neg hno, if_neg fun hall => h hall.2.2]
    · rw [if_neg fun hle => hroom (hleft.mp hle)]
      refine ⟨_, _, rfl, fun h => absurd h hno, fun _ => ?_⟩
      rw [payloadOffset, if_neg hno, if_neg fun hall => hroom hall.2.1]
  · rw [if_neg hvlan]
    refine ⟨_, _, rfl, fun h => ⟨by rw [payloadOffset, if_pos h]; rfl, by simp⟩, fun h => ?_⟩
    rw [payloadOffset, if_neg h, if_neg fun hall => hvlan hall.1]

theorem handleRead_of_none (hmin : privRecHdrLen ≤ frame.length) (hmax : frame.length ≤ 3000)
    (h : frame.length = privRecHdrLen ∨ payloadOffset frame = none) (env : ReadEnv) :
    handleRead frame env = some .dropped := by
  rw [handleRead, left_eq hmin hmax]
  rcases Nat.eq_or_lt_of_le hmin with heq | hlt
  · rw [← heq]
    rfl
  have hleft := left_ne_zero hlt hmax
  obtain ⟨ethertype, isVlanTag, hread, hsome, -⟩ := readEthertype_spec hlt hmax
  have hno : ¬ (ethertype = ethPPreAuth ∨ ethertype = ethPPae) := by
    intro hyes
    rcases h with heq | hnone
    · exact absurd heq.symm (Nat.ne_of_lt hlt)
    · rw [(hsome hyes).1] at hnone
      cases hnone
  simp only [if_neg hleft, hread, bind_eq_bind, bind_some, if_neg hno]

theorem handleRead_of_some (hmin : privRecHdrLen < frame.length) (hmax : frame.length ≤ 3000)
    (h : payloadOffset frame = some pos) :
    pos ≤ frame.length ∧ ∃ ethertype, (ethertype = ethPPreAuth ∨ ethertype = ethPPae) ∧
      ∀ env, handleRead frame env =
        if env.ownAddr.all fun addr => frame.take 6 ≠ addr then some .dropped
        else
          (if frame.length = pos + ralinkIeLen.toNat then rtmpCompareMemory frame pos ralinkIe
            else some false).bind fun command =>
              if command then frame[pos + 5]?.map fun icmd =>
                match icmd.toNat with
                | 0 => .disconnect ((frame.drop 6).take 6)
                | 1 => .reloadConfig
                | _ => .unknownCommand
              else ieee8021xReceive frame env ((frame.drop 6).take 6) pos
                (ofNat 32 (frame.length - pos)) ethertype := by
  have hleft := left_ne_zero hmin hmax
  obtain ⟨ethertype, isVlanTag, hread, hsome, hnone⟩ := readEthertype_spec hmin hmax
  have hyes : ethertype = ethPPreAuth ∨ ethertype = ethPPae := by
    by_contra hno
    rw [hnone hno] at h
    cases h
  obtain ⟨hoffset, hroom⟩ := hsome hyes
  have hpos : (if isVlanTag = true then privRecHdrLen + 4 else privRecHdrLen) = pos :=
    some.inj (hoffset.symm.trans h)
  have hle : pos ≤ frame.length := by
    rw [← hpos]
    split
    · next htag => exact hroom htag
    · exact Nat.le_of_lt hmin
  have hrest : (if isVlanTag = true then ofNat 32 (frame.length - privRecHdrLen) - 4
      else ofNat 32 (frame.length - privRecHdrLen)) =
        ofNat 32 (frame.length - pos) := by
    rw [← hpos]
    split
    · next htag =>
      have hroom' := hroom htag
      have h4 : (4 : BitVec 32).toNat = 4 := rfl
      rw [privRecHdrLen] at hroom' ⊢
      apply eq_of_toNat_eq
      simp only [toNat_sub, toNat_ofNat, h4]
      omega
    · rfl
  have hcommand : ofNat 32 (frame.length - pos) = ralinkIeLen ↔
      frame.length = pos + ralinkIeLen.toNat := by
    rw [← BitVec.toNat_inj, toNat_ofNat, Nat.mod_eq_of_lt (by omega)]
    have hnine : ralinkIeLen.toNat = 9 := rfl
    omega
  rw [privRecHdrLen] at hmin
  have hda : fetch frame 0 6 = some (frame.take 6) := fetch_eq_some_iff.mpr ⟨by omega, rfl⟩
  have hsa : fetch frame 6 6 = some ((frame.drop 6).take 6) :=
    fetch_eq_some_iff.mpr ⟨by omega, rfl⟩
  refine ⟨hle, ethertype, hyes, fun env => ?_⟩
  rw [handleRead, left_eq (Nat.le_of_lt hmin) hmax]
  simp only [if_neg hleft, hread, bind_eq_bind, bind_some, if_pos hyes, hda, hpos,
    hrest, hsa, hcommand]
  split
  · rfl
  · split
    · refine Option.bind_congr fun command _ => ?_
      split
      · cases frame[pos + 5]? with
        | none => rfl
        | some icmd =>
          simp only [bind_some, map_some]
          split
          · rfl
          · rfl
          · rfl
      · rfl
    · rfl

theorem DriverCommand.compare (h : DriverCommand frame pos) :
    rtmpCompareMemory frame pos ralinkIe = some true := by
  rw [rtmpCompareMemory_eq, if_pos h.2]

theorem not_driverCommand_compare (h : ¬ DriverCommand frame pos)
    (hlen : frame.length = pos + ralinkIeLen.toNat) :
    rtmpCompareMemory frame pos ralinkIe = some false := by
  have hno : ¬ ralinkIe <+: frame.drop pos := fun hpre => h ⟨hlen, hpre⟩
  have hlong : ¬ frame.drop pos <+: ralinkIe := by
    intro hpre
    have hle := hpre.length_le
    rw [length_drop, hlen, Nat.add_sub_cancel_left] at hle
    exact absurd hle (by decide)
  rw [rtmpCompareMemory_eq, if_neg hno, if_neg hlong]

/-- **A frame is processed inside** exactly if it can be read as its headers say. -/
theorem staysInside_iff_readable (hmax : frame.length ≤ 3000) :
    StaysInside frame ↔ FrameReadable frame := by
  by_cases hmin : privRecHdrLen ≤ frame.length
  case neg =>
    -- the ethertype is behind the end
    refine iff_of_false (fun hin => ?_) fun h => hmin h.1
    obtain ⟨r, hr, -⟩ := hin (attentive frame 0)
    have hnone : readBe16 frame 12 = none := by
      apply readBe16_none
      rw [privRecHdrLen] at hmin
      omega
    have hleft : ¬ ofNat 32 frame.length - 15 + 1 ≤ (0 : BitVec 32) := by
      have h0 : (0 : BitVec 32).toNat = 0 := rfl
      have h15 : (15 : BitVec 32).toNat = 15 := rfl
      have h1 : (1 : BitVec 32).toNat = 1 := rfl
      rw [privRecHdrLen] at hmin
      simp only [le_def, toNat_add, toNat_sub, toNat_ofNat, h0, h1, h15]
      omega
    simp only [handleRead, if_neg hleft, readEthertype, hnone, bind_eq_bind, bind_none] at hr
    cases hr
  have hdropped : ∀ sa after, ReadResult.dropped ≠ .station sa after := by
    intro sa after h
    cases h
  by_cases hempty : frame.length = privRecHdrLen
  · refine iff_of_true (fun env => ⟨.dropped, ?_, fun sa after h => absurd h (hdropped sa after)⟩)
      ⟨hmin, .inl hempty⟩
    exact handleRead_of_none hmin hmax (.inl hempty) env
  have hlt : privRecHdrLen < frame.length := Nat.lt_of_le_of_ne hmin (Ne.symm hempty)
  cases hoffset : payloadOffset frame with
  | none =>
    refine iff_of_true (fun env => ⟨.dropped, ?_, fun sa after h => absurd h (hdropped sa after)⟩)
      ⟨hmin, .inr fun pos hpos => ?_⟩
    · exact handleRead_of_none hmin hmax (.inr hoffset) env
    · rw [hoffset] at hpos
      cases hpos
  | some pos =>
    obtain ⟨hpos, ethertype, hethertype, hread⟩ := handleRead_of_some hlt hmax hoffset
    have hcond : FrameReadable frame ↔ DriverCommand frame pos ∨ PayloadReadable frame pos := by
      rw [FrameReadable, and_iff_right hmin, or_iff_right hempty]
      refine ⟨fun h => h pos hoffset, fun h pos' hpos' => ?_⟩
      rw [hoffset] at hpos'
      obtain rfl := some.inj hpos'
      exact h
    rw [hcond]
    by_cases hcommand : DriverCommand frame pos
    · refine iff_of_true (fun env => ?_) (.inl hcommand)
      have hicmd : pos + 5 < frame.length := by
        rw [hcommand.1]
        have hnine : ralinkIeLen.toNat = 9 := rfl
        omega
      rw [hread env, if_pos hcommand.1, hcommand.compare, getElem?_octet hicmd]
      simp only [bind_some, if_true, map_some]
      split
      · exact ⟨_, rfl, fun sa after h => absurd h (hdropped sa after)⟩
      refine ⟨_, rfl, fun sa after h => ?_⟩
      split at h
      · cases h
      · cases h
      · cases h
    · have hgeneral : ∀ env, handleRead frame env =
          if env.ownAddr.all fun addr => frame.take 6 ≠ addr then some .dropped
          else ieee8021xReceive frame env ((frame.drop 6).take 6) pos
            (ofNat 32 (frame.length - pos)) ethertype := by
        intro env
        rw [hread env]
        by_cases hlen : frame.length = pos + ralinkIeLen.toNat
        · rw [if_pos hlen, not_driverCommand_compare hcommand hlen]
          rfl
        · rw [if_neg hlen]
          rfl
      rw [or_iff_right hcommand]
      constructor
      · intro hin
        by_contra hno
        obtain ⟨r, hr, -⟩ := hin (attentive frame pos)
        rw [hgeneral, ieee8021xReceive_outside _ hethertype hno hmax] at hr
        simp [attentive] at hr
      · intro hreadable env
        rw [hgeneral]
        split
        · exact ⟨_, rfl, fun sa after h => absurd h (hdropped sa after)⟩
        obtain ⟨r, hr, hcopies⟩ := ieee8021xReceive_inside env ((frame.drop 6).take 6) ethertype
          hreadable hpos hmax
        refine ⟨r, hr, fun sa after h => ?_⟩
        obtain ⟨before, hsta, hcopy⟩ := hcopies sa after h
        exact ⟨before, pos, hsta, hoffset, hcopy⟩

/-- **EAPOL receive** stays inside a frame, of which `recv` reads at most 3000 bytes, exactly if these
    can be read as the headers say. -/
theorem staysInside_iff (frame : List (BitVec 8)) :
    StaysInside (received frame) ↔ FrameReadable (received frame) :=
  staysInside_iff_readable (List.length_take_le 3000 frame)

/-- Behind an LLC/SNAP header, an EAP response of eight bytes of which four were received. -/
def snapFrame : List (BitVec 8) :=
  replicate 12 2 ++ [0x88, 0x8e] ++ [0xaa, 0xaa, 3, 0, 0, 0, 0x88, 0x8e] ++
    [1, 0, 0, 8] ++ [2, 1, 0, 8]

/-- Four bytes behind the frame are copied as part of the response. -/
theorem not_staysInside_snapFrame : ¬ ∀ frame, StaysInside (received frame) := by
  intro hall
  obtain ⟨r, hr, -⟩ := hall snapFrame (attentive snapFrame 14)
  exact absurd (Option.isSome_of_eq_some hr) (by decide)

end RalinkSdk.Dot1x
