import Mathlib
import RalinkSdk.Lib.Memory
import RalinkSdk.Lib.Run

/-!
# Putting received fragments together

`RTMPDeFragmentDataFrame` of `common/cmm_data.c` collects the fragments of a data frame in the one
`FragFrame` of the adapter.  The record keeps a packet buffer, the size of what is in it, a
sequence number and the number of the last fragment; it does not keep whose frame it is, nor
whether there is one.

So a fragment that carries the expected numbers is appended whoever sent it, and it is appended to
a record that was reset (its zeros are the sequence number 0 and the fragment number 0) or whose
frame has been returned already.

## Conventions

- A received frame is the bytes from `pHeader` on: the header up to `pData`, the `DataSize` bytes
  of the body, and what follows them in the receive buffer.
- `FragFrame.Flags` is never read and left out.  The buffer has no end in the model; what the
  function returns lies within its first `MAX_FRAME_SIZE` bytes.
-/

namespace RalinkSdk.RxData

open Lib List

/-! ## Frames and the record -/

/-- A `RX_BLK`: the fields of the 802.11 header that are looked at, and the bytes.  The distance
    from `pHeader` to `pData` fits a byte, the size of the body 16 bits. -/
structure Frame where
  /-- `Addr2`, the transmitter -/
  addr2 : BitVec 48
  sequence : Nat
  frag : Nat
  moreFrag : Bool
  header : List (BitVec 8)
  data : List (BitVec 8)
  /-- what follows the body in the receive buffer -/
  tail : List (BitVec 8)
  header_lt : header.length < 2 ^ 8
  data_lt : data.length < 2 ^ 16
deriving DecidableEq

structure FragFrame where
  /-- the bytes of `pFragPacket` -/
  packet : Bytes
  rxSize : Nat
  sequence : Nat
  lastFrag : Nat

def FragFrame.reset (r : FragFrame) : FragFrame := { r with rxSize := 0, sequence := 0, lastFrag := 0 }

def maxFrameSize : Nat := 2346

def snap8021H : List (BitVec 8) := [0xaa, 0xaa, 0x03, 0x00, 0x00, 0x00]

/-- The packet that is returned: `pData` and `DataSize` of the `RX_BLK`. -/
structure Packet where
  body : List (BitVec 8)
  dataSize : Nat
deriving DecidableEq

/-- What the function decides about a frame. -/
inductive Verdict where
  /-- neither recorded nor appended, the record stays -/
  | ignore
  /-- recorded as the first fragment -/
  | first
  /-- the record is reset -/
  | giveUp
  /-- appended, more to come -/
  | append
  /-- appended, the frame is complete -/
  | complete
deriving DecidableEq

def verdict (r : FragFrame) (f : Frame) : Verdict :=
  if f.frag = 0 then
    if f.moreFrag then .first else .ignore
  else if f.sequence ≠ r.sequence ∨ f.frag ≠ r.lastFrag + 1 then .giveUp
  else if maxFrameSize < r.rxSize + f.data.length then .giveUp
  -- Broadcom APs send an LLC header in later fragments
  else if (f.data ++ f.tail).take 6 = snap8021H then .ignore
  else if f.moreFrag then .append
  else .complete

/-- The first fragment is copied with its header. -/
def FragFrame.record (r : FragFrame) (f : Frame) : FragFrame where
  packet := r.packet.write 0
    ((f.header ++ f.data ++ f.tail).take (f.data.length + f.header.length))
  rxSize := f.data.length + f.header.length
  sequence := f.sequence
  lastFrag := f.frag

/-- A later fragment is copied without its header. -/
def FragFrame.concat (r : FragFrame) (f : Frame) : FragFrame :=
  { r with
    packet := r.packet.write r.rxSize f.data
    rxSize := r.rxSize + f.data.length
    lastFrag := f.frag }

/-- The record's buffer, read from behind a header as long as that of the last fragment. -/
def FragFrame.packetOf (r : FragFrame) (f : Frame) : Packet :=
  -- `RxSize - HeaderRoom` is an `unsigned long`, `DataSize` a `USHORT`
  let dataSize := (r.rxSize + 2 ^ 32 - f.header.length) % 2 ^ 32 % 2 ^ 16
  ⟨r.packet.read f.header.length dataSize, dataSize⟩

/-- `RTMPDeFragmentDataFrame`.  `alloc` is the new packet buffer, if there is one. -/
def rtmpDeFragmentDataFrame (r : FragFrame) (f : Frame) (alloc : Option Bytes) :
    Option Packet × FragFrame :=
  match verdict r f with
  | .ignore => (none, r)
  | .first => (none, r.record f)
  | .giveUp => (none, r.reset)
  | .append => (none, r.concat f)
  | .complete =>
    let r := r.concat f
    match alloc with
    | some packet => (some (r.packetOf f), { r with packet := packet })
    | none => (none, r.reset)

/-! ## Runs -/

/-- The record with what has happened: the frames received, and those appended since the last
    first fragment. -/
structure Reassembly where
  record : FragFrame
  received : List Frame
  pending : List Frame

structure Arrival where
  frame : Frame
  alloc : Option Bytes

def pendingAfter (pending : List Frame) (f : Frame) : Verdict → List Frame
  | .ignore => pending
  | .first => [f]
  | .append => pending ++ [f]
  | .giveUp | .complete => []

def Reassembly.step (s : Reassembly) (e : Arrival) : Reassembly where
  record := (rtmpDeFragmentDataFrame s.record e.frame e.alloc).2
  received := s.received ++ [e.frame]
  pending := pendingAfter s.pending e.frame (verdict s.record e.frame)

/-- A reset record, with anything in its buffer. -/
def Reassembly.init (packet : Bytes) : Reassembly := ⟨⟨packet, 0, 0, 0⟩, [], []⟩

/-- Fragments 0, 1, .., n of one frame of one transmitter, of which the last alone has no other
    behind it. -/
structure OneFrame (frags : List Frame) : Prop where
  addr2 : ∀ f ∈ frags, ∀ g ∈ frags, f.addr2 = g.addr2
  sequence : ∀ f ∈ frags, ∀ g ∈ frags, f.sequence = g.sequence
  frag : frags.map Frame.frag = range frags.length
  moreFrag : frags.reverse.map Frame.moreFrag = false :: replicate (frags.length - 1) true

instance (frags : List Frame) : Decidable (OneFrame frags) :=
  decidable_of_iff
    ((∀ f ∈ frags, ∀ g ∈ frags, f.addr2 = g.addr2) ∧
      (∀ f ∈ frags, ∀ g ∈ frags, f.sequence = g.sequence) ∧
      frags.map Frame.frag = range frags.length ∧
      frags.reverse.map Frame.moreFrag = false :: replicate (frags.length - 1) true)
    ⟨fun ⟨h₁, h₂, h₃, h₄⟩ => ⟨h₁, h₂, h₃, h₄⟩, fun ⟨h₁, h₂, h₃, h₄⟩ => ⟨h₁, h₂, h₃, h₄⟩⟩

/-- The bodies of fragments, one after the other. -/
def bodies (frags : List Frame) : List (BitVec 8) := frags.flatMap Frame.data

/-- A packet made of one frame's fragments, in the order in which they were received. -/
def Assembled (received : List Frame) (p : Packet) : Prop :=
  ∃ frags ∈ received.sublists, OneFrame frags ∧ p.body = bodies frags ∧
    p.dataSize = (frags.map (·.data.length)).sum

instance (received : List Frame) (p : Packet) : Decidable (Assembled received p) :=
  inferInstanceAs (Decidable (∃ frags ∈ received.sublists, _ ∧ _ ∧ _))

/-- Whatever is returned is one sender's frame. -/
def Returned (s : Reassembly) (e : Arrival) : Prop :=
  ∀ p ∈ (rtmpDeFragmentDataFrame s.record e.frame e.alloc).1, Assembled (s.step e).received p

instance (s : Reassembly) (e : Arrival) : Decidable (Returned s e) :=
  inferInstanceAs (Decidable (∀ p ∈ _, _))

/-- A fragment that is appended continues a frame that is being collected, comes from its
    transmitter and, if it is the last, has a header as long as the first one's. -/
def Continues (s : Reassembly) (e : Arrival) : Prop :=
  verdict s.record e.frame = .append ∨ verdict s.record e.frame = .complete →
    ∃ first ∈ s.pending.head?, e.frame.addr2 = first.addr2 ∧
      (e.frame.moreFrag = false → e.frame.header.length = first.header.length)

instance (s : Reassembly) (e : Arrival) : Decidable (Continues s e) :=
  inferInstanceAs (Decidable (_ → _))

/-! ## What the checks let pass -/

variable {r : FragFrame} {f first : Frame} {frags : List Frame}

theorem verdict_first (h : verdict r f = .first) : f.frag = 0 ∧ f.moreFrag = true := by
  rw [verdict] at h
  split at h
  · next hfrag =>
    split at h
    · next hmore => exact ⟨hfrag, hmore⟩
    · cases h
  · split_ifs at h

theorem verdict_append (h : verdict r f = .append ∨ verdict r f = .complete) :
    f.sequence = r.sequence ∧ f.frag = r.lastFrag + 1 ∧
      r.rxSize + f.data.length ≤ maxFrameSize ∧
      (f.moreFrag = true ↔ verdict r f = .append) := by
  rw [verdict] at h ⊢
  split_ifs at h ⊢ with hfrag hmore hnum hsize hllc hmore
  all_goals simp_all

/-! ## The frame being collected -/

/-- The record holds fragments of one frame, beginning with the header of the first. -/
structure Collected (r : FragFrame) (first : Frame) (frags : List Frame) : Prop where
  addr2 : ∀ f ∈ frags, f.addr2 = first.addr2
  sequence : ∀ f ∈ frags, f.sequence = r.sequence
  frag : frags.map Frame.frag = range frags.length
  lastFrag : r.lastFrag + 1 = frags.length
  rxSize : r.rxSize = first.header.length + (bodies frags).length
  packet : r.packet.read first.header.length (bodies frags).length = bodies frags

theorem bodies_append (frags : List Frame) (f : Frame) :
    bodies (frags ++ [f]) = bodies frags ++ f.data := by
  simp [bodies]

theorem Collected.record (r : FragFrame) (hfrag : f.frag = 0) : Collected (r.record f) f [f] where
  addr2 := by simp
  sequence := by simp [FragFrame.record]
  frag := by simp [hfrag]
  lastFrag := by simp [FragFrame.record, hfrag]
  rxSize := by
    simp only [FragFrame.record, bodies, flatMap_singleton]
    exact Nat.add_comm _ _
  packet := by
    -- the copy is the header and the body
    have hcopy : (f.header ++ f.data ++ f.tail).take (f.data.length + f.header.length) =
        f.header ++ f.data := by
      rw [take_left' (by simp [Nat.add_comm])]
    have hread := read_write_drop r.packet 0 (f.header ++ f.data) f.header.length
    rw [Nat.zero_add, length_append, Nat.add_sub_cancel_left, drop_left] at hread
    simpa only [FragFrame.record, hcopy, bodies, flatMap_singleton] using hread

theorem Collected.concat (h : Collected r first frags) (haddr : f.addr2 = first.addr2)
    (hseq : f.sequence = r.sequence) (hfrag : f.frag = r.lastFrag + 1) :
    Collected (r.concat f) first (frags ++ [f]) where
  addr2 := by
    intro g hg
    rcases mem_append.mp hg with hold | hnew
    · exact h.addr2 g hold
    · rw [mem_singleton.mp hnew, haddr]
  sequence := by
    intro g hg
    rcases mem_append.mp hg with hold | hnew
    · exact h.sequence g hold
    · rw [mem_singleton.mp hnew, hseq]
      rfl
  frag := by
    rw [map_append, h.frag, length_append, length_singleton, range_succ,
      map_singleton, hfrag, h.lastFrag]
  lastFrag := by simp [FragFrame.concat, hfrag, h.lastFrag]
  rxSize := by
    rw [bodies_append, length_append, ← Nat.add_assoc, ← h.rxSize]
    rfl
  packet := by
    rw [bodies_append, length_append]
    have hread := read_write_append r.packet first.header.length (bodies frags).length f.data
    rw [h.packet, ← h.rxSize] at hread
    exact hread

theorem Collected.packetOf (h : Collected r first frags)
    (hheader : f.header.length = first.header.length) (hsize : r.rxSize ≤ maxFrameSize) :
    r.packetOf f = ⟨bodies frags, (frags.map (·.data.length)).sum⟩ := by
  have hsum : (frags.map (·.data.length)).sum = (bodies frags).length := by
    simp [bodies, length_flatMap]
  have hmax : maxFrameSize = 2346 := rfl
  have hrx := h.rxSize
  have hdata : (r.rxSize + 2 ^ 32 - first.header.length) % 2 ^ 32 % 2 ^ 16 =
      (bodies frags).length := by omega
  simp only [FragFrame.packetOf, hheader, hdata, h.packet, hsum]

theorem Collected.oneFrame (h : Collected r first (frags ++ [f]))
    (hmore : ∀ g ∈ frags, g.moreFrag = true) (hlast : f.moreFrag = false) :
    OneFrame (frags ++ [f]) where
  addr2 := fun g hg g' hg' => (h.addr2 g hg).trans (h.addr2 g' hg').symm
  sequence := fun g hg g' hg' => (h.sequence g hg).trans (h.sequence g' hg').symm
  frag := h.frag
  moreFrag := by
    have hmap : frags.reverse.map Frame.moreFrag = replicate frags.length true := by
      rw [eq_replicate_iff]
      refine ⟨by simp, ?_⟩
      intro b hb
      obtain ⟨g, hg, rfl⟩ := mem_map.mp hb
      exact hmore g (mem_reverse.mp hg)
    simp [hlast, hmap]

/-! ## Runs -/

/-- The pending fragments were received, are not the last of their frame, and are what the record
    holds. -/
structure Inv (s : Reassembly) : Prop where
  received : s.pending.Sublist s.received
  moreFrag : ∀ f ∈ s.pending, f.moreFrag = true
  collected : ∀ first ∈ s.pending.head?, Collected s.record first s.pending

theorem inv_init (packet : Bytes) : Inv (Reassembly.init packet) where
  received := List.Sublist.refl _
  moreFrag := by simp [Reassembly.init]
  collected := by simp [Reassembly.init]

theorem Inv.of_nil {s : Reassembly} (h : s.pending = []) : Inv s where
  received := by simp [h]
  moreFrag := by simp [h]
  collected := by simp [h]

theorem Inv.concat {s : Reassembly} {e : Arrival} (h : Inv s) (hcont : Continues s e)
    (hverdict : verdict s.record e.frame = .append ∨ verdict s.record e.frame = .complete) :
    ∃ first ∈ s.pending.head?,
      Collected (s.record.concat e.frame) first (s.pending ++ [e.frame]) ∧
        (e.frame.moreFrag = false → e.frame.header.length = first.header.length) := by
  obtain ⟨first, hfirst, haddr, hheader⟩ := hcont hverdict
  obtain ⟨hseq, hfrag, -, -⟩ := verdict_append hverdict
  exact ⟨first, hfirst, (h.collected first hfirst).concat haddr hseq hfrag, hheader⟩

theorem Inv.step {s : Reassembly} (h : Inv s) (e : Arrival) (hcont : Continues s e) :
    Inv (s.step e) := by
  cases hverdict : verdict s.record e.frame with
  | ignore =>
    have hrecord : (s.step e).record = s.record := by
      simp [Reassembly.step, rtmpDeFragmentDataFrame, hverdict]
    have hpending : (s.step e).pending = s.pending := by
      simp [Reassembly.step, pendingAfter, hverdict]
    refine ⟨?_, ?_, ?_⟩
    · rw [hpending]
      exact h.received.trans (sublist_append_left _ _)
    · rw [hpending]
      exact h.moreFrag
    · rw [hpending, hrecord]
      exact h.collected
  | first =>
    obtain ⟨hfrag, hmore⟩ := verdict_first hverdict
    have hrecord : (s.step e).record = s.record.record e.frame := by
      simp [Reassembly.step, rtmpDeFragmentDataFrame, hverdict]
    have hpending : (s.step e).pending = [e.frame] := by
      simp [Reassembly.step, pendingAfter, hverdict]
    refine ⟨?_, ?_, ?_⟩
    · rw [hpending]
      exact sublist_append_right _ _
    · simp [hpending, hmore]
    · rw [hpending, hrecord]
      intro first hfirst
      rw [← Option.some.inj hfirst]
      exact Collected.record s.record hfrag
  | append =>
    obtain ⟨first, hfirst, hcollected, -⟩ := h.concat hcont (.inl hverdict)
    have hmore := (verdict_append (.inl hverdict)).2.2.2.mpr hverdict
    have hrecord : (s.step e).record = s.record.concat e.frame := by
      simp [Reassembly.step, rtmpDeFragmentDataFrame, hverdict]
    have hpending : (s.step e).pending = s.pending ++ [e.frame] := by
      simp [Reassembly.step, pendingAfter, hverdict]
    refine ⟨?_, ?_, ?_⟩
    · rw [hpending]
      exact h.received.append (List.Sublist.refl _)
    · intro g hg
      rw [hpending] at hg
      rcases mem_append.mp hg with hold | hnew
      · exact h.moreFrag g hold
      · rw [mem_singleton.mp hnew, hmore]
    · rw [hpending, hrecord]
      intro first' hfirst'
      rw [head?_append, hfirst] at hfirst'
      rw [← Option.some.inj hfirst']
      exact hcollected
  | giveUp => exact Inv.of_nil (by simp [Reassembly.step, pendingAfter, hverdict])
  | complete => exact Inv.of_nil (by simp [Reassembly.step, pendingAfter, hverdict])

theorem Inv.returned {s : Reassembly} (h : Inv s) (e : Arrival) (hcont : Continues s e) :
    Returned s e := by
  intro p hp
  cases hverdict : verdict s.record e.frame with
  | ignore => simp [rtmpDeFragmentDataFrame, hverdict] at hp
  | first => simp [rtmpDeFragmentDataFrame, hverdict] at hp
  | giveUp => simp [rtmpDeFragmentDataFrame, hverdict] at hp
  | append => simp [rtmpDeFragmentDataFrame, hverdict] at hp
  | complete =>
    obtain ⟨first, hfirst, hcollected, hheader⟩ := h.concat hcont (.inr hverdict)
    obtain ⟨-, -, hsize, hmore⟩ := verdict_append (.inr hverdict)
    have hlast : e.frame.moreFrag = false := by simpa [hverdict] using hmore
    have hpacket := hcollected.packetOf (hheader hlast) hsize
    have hp' : p = (s.record.concat e.frame).packetOf e.frame := by
      cases halloc : e.alloc with
      | none => simp [rtmpDeFragmentDataFrame, hverdict, halloc] at hp
      | some packet =>
        simp only [rtmpDeFragmentDataFrame, hverdict, halloc] at hp
        exact (Option.some.inj hp).symm
    refine ⟨s.pending ++ [e.frame], ?_, hcollected.oneFrame h.moreFrag hlast, ?_, ?_⟩
    · rw [mem_sublists]
      exact h.received.append (List.Sublist.refl _)
    · rw [hp', hpacket]
    · rw [hp', hpacket]

/-- **Reassembled frames are one sender's frame**: from a reset record, as long as every fragment
    that the checks let pass continues the frame being collected. -/
theorem defragment_run (packet : Bytes) (es : List Arrival)
    (h : Along Reassembly.step Continues (Reassembly.init packet) es) :
    Along Reassembly.step Returned (Reassembly.init packet) es :=
  h.of_invariant (fun _ e hInv hcont => hInv.step e hcont)
    (fun _ e hInv hcont => hInv.returned e hcont) (inv_init packet)

/-- A fragment with a header of 24 bytes. -/
def sampleFragment (addr2 : BitVec 48) (frag : Nat) (moreFrag : Bool) (data : BitVec 8) : Frame where
  addr2 := addr2
  sequence := 5
  frag := frag
  moreFrag := moreFrag
  header := replicate 24 0
  data := [data]
  tail := []
  header_lt := by simp
  data_lt := by simp

/-- Two fragments of one station, and the second fragment once more. -/
def sampleArrivals : List Arrival :=
  [⟨sampleFragment 1 0 true 0x11, none⟩, ⟨sampleFragment 1 1 false 0x22, some fun _ => 0⟩,
   ⟨sampleFragment 1 1 false 0x22, some fun _ => 0⟩]

/-- The frame is returned, its repeated end is refused. -/
theorem defragment_run_repeated :
    Along Reassembly.step Continues (Reassembly.init fun _ => 0) sampleArrivals ∧
      Along Reassembly.step Returned (Reassembly.init fun _ => 0) sampleArrivals ∧
      (rtmpDeFragmentDataFrame
        ((Reassembly.init fun _ => 0).step ⟨sampleFragment 1 0 true 0x11, none⟩).record
        (sampleFragment 1 1 false 0x22) (some fun _ => 0)).1 = some ⟨[0x11, 0x22], 2⟩ := by
  have h : Along Reassembly.step Continues (Reassembly.init fun _ => 0) sampleArrivals := by
    decide +kernel
  exact ⟨h, defragment_run _ _ h, by decide +kernel⟩

/-- The second station's fragment ends the first station's frame. -/
theorem fragments_of_two_stations_mixed :
    ¬ Along Reassembly.step Returned (Reassembly.init fun _ => 0)
      [⟨sampleFragment 1 0 true 0x11, none⟩, ⟨sampleFragment 2 1 false 0x22, some fun _ => 0⟩] := by
  decide +kernel

/-- A frame of which only the end was received, with the sequence number that a reset leaves. -/
example : (rtmpDeFragmentDataFrame (Reassembly.init fun _ => 0).record
    { sampleFragment 1 1 false 0x22 with sequence := 0 } (some fun _ => 0)).1.map (·.dataSize) =
      some (2 ^ 16 - 23) := by
  decide +kernel

end RalinkSdk.RxData
