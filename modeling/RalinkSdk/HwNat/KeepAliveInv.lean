import Mathlib.Tactic.Ring
import RalinkSdk.HwNat.KeepAlive

/-!
# The checksums of a packet that is put back

Exchanging a word in the checksum by `CsumPart` subtracts its residue and adds that of the new one,
so that a packet whose sum was right has a right sum again.  For TCP that is all; for UDP a
checksum of 0 means that there is none, and the functions for TCP and UDP are the same.
-/

namespace RalinkSdk.HwNat

open Lib List
open BitVec (allOnes eq_of_toNat_eq extractLsb'_toNat)

/-! ## What a checksum covers -/

/-- The two halves of a word, in the order of their addresses. -/
def halves (x : BitVec 32) : List (BitVec 16) := [x.extractLsb' 0 16, x.extractLsb' 16 16]

/-- The words of the data; a last byte is filled up with 0. -/
def dataWords : List (BitVec 8) → List (BitVec 16)
  | [] => []
  | [a] => [0#8 ++ a]
  | a :: b :: data => (b ++ a) :: dataWords data

/-- The length of what follows the header. -/
def IpHdr.l4Len (iph : IpHdr) : BitVec 16 := htons (htons iph.totLen - 4 * iph.ihl.setWidth 16)

/-- The pseudo-header of TCP and UDP. -/
def IpHdr.pseudo (iph : IpHdr) (len : BitVec 16) : List (BitVec 16) :=
  halves iph.saddr ++ halves iph.daddr ++ [iph.protocol ++ 0#8, len]

def TcpHdr.words (th : TcpHdr) : List (BitVec 16) :=
  [th.source, th.dest] ++ halves th.seq ++ halves th.ackSeq ++
    [th.doffFlags, th.window, th.check, th.urgPtr]

def UdpHdr.words (uh : UdpHdr) : List (BitVec 16) := [uh.source, uh.dest, uh.len, uh.check]

/-- The sum of words, the checksum among them, is the word of all ones. -/
def ChecksumOk (words : List (BitVec 16)) : Prop := onesSum 0 words = allOnes 16

/-- The checksum of IP is right. -/
def IpHdr.Valid (iph : IpHdr) : Prop := ChecksumOk (iph.words.flatMap halves)

/-- The checksum of TCP is right. -/
def TcpHdr.Valid (iph : IpHdr) (th : TcpHdr) (data : List (BitVec 8)) : Prop :=
  ChecksumOk (iph.pseudo iph.l4Len ++ th.words ++ dataWords data)

/-- What the checksum of UDP covers. -/
def udpWords (iph : IpHdr) (uh : UdpHdr) (data : List (BitVec 8)) : List (BitVec 16) :=
  iph.pseudo uh.len ++ uh.words ++ dataWords data

/-- The checksum of UDP is right. -/
def UdpHdr.Valid (iph : IpHdr) (uh : UdpHdr) (data : List (BitVec 8)) : Prop :=
  ChecksumOk (udpWords iph uh data)

/-! ## Residues of the checksums -/

theorem checksumOk_iff (words : List (BitVec 16)) :
    ChecksumOk words ↔ (words.map (residue 65535)).sum = 0 ∧ ∃ x ∈ words, x ≠ 0 := by
  have hmod : 2 ^ 16 - 1 = 65535 := rfl
  rw [ChecksumOk, eq_allOnes_iff (by decide), Ne, onesSum_eq_zero, hmod,
    residue_onesSum casts_sixteen, residue_zero, zero_add]
  simp

theorem sum_halves (x : BitVec 32) : ((halves x).map (residue 65535)).sum = residue 65535 x := by
  rw [residue_halves]
  simp [halves, add_comm]

theorem residue_csumFold (x : BitVec 32) : residue 65535 (csumFold x) = -residue 65535 x := by
  rw [csumFold, residue_not casts_sixteen, residue_foldHalves]

theorem xor_allOnes_eq (x : BitVec 16) : x ^^^ 0xFFFF = ~~~x := BitVec.xor_allOnes

theorem residue_csumPart (o n : BitVec 32) (old : BitVec 16) : residue 65535 (csumPart o n old) =
      residue 65535 old - residue 65535 o - residue 65535 n := by
  rw [csumPart, residue_csumFold, csumPartial, residue_onesSum casts_thirtyTwo, residue_setWidth,
    xor_allOnes_eq, residue_not casts_sixteen]
  simp only [map_cons, map_nil, sum_cons, sum_nil]
  ring

/-- **The four calls**: each word that is exchanged counts with its residue. -/
theorem residue_foeToOrgCheck (foe : FoeEntry) (iph : IpHdr) (source dest check : BitVec 16) :
    residue 65535 (foeToOrgCheck foe iph source dest check) =
      residue 65535 check + (residue 65535 source + residue 65535 dest + residue 65535 iph.saddr +
          residue 65535 iph.daddr) -
        (residue 65535 (htons foe.sport) + residue 65535 (htons foe.dport) +
          residue 65535 (htonl foe.sip) + residue 65535 (htonl foe.dip)) := by
  simp only [foeToOrgCheck, residue_csumPart, residue_setWidth, xor_allOnes_eq,
    residue_not casts_sixteen, residue_not casts_thirtyTwo]
  ring

/-! ## The checksum of IP -/

theorem sum_flatMap_halves (words : List (BitVec 32)) :
    ((words.flatMap halves).map (residue 65535)).sum = (words.map (residue 65535)).sum := by
  induction words with
  | nil => rfl
  | cons x words ih =>
    rw [flatMap_cons, map_append, sum_append, sum_halves, ih, map_cons, sum_cons]

theorem residue_checkWord (check : BitVec 16) (protocol ttl : BitVec 8) :
    residue 65535 (check ++ protocol ++ ttl) =
      residue 65535 check + residue 65535 (protocol ++ ttl) := by
  have hsplit : (check ++ protocol ++ ttl).toNat =
      check.toNat * 2 ^ 16 + (protocol ++ ttl).toNat := by
    simp only [toNat_append_eq]
    omega
  unfold residue
  rw [hsplit, Nat.cast_add, Nat.cast_mul, casts_sixteen, mul_one]

theorem IpHdr.exists_ne_zero (iph : IpHdr) : ∃ x ∈ iph.words.flatMap halves, x ≠ 0 := by
  refine ⟨(iph.totLen ++ iph.tos ++ iph.version ++ iph.ihl).extractLsb' 0 16, ?_, ?_⟩
  · simp [IpHdr.words, halves]
  · intro hzero
    have hlow := congrArg BitVec.toNat hzero
    have hlength := iph.length_eq
    simp only [extractLsb'_toNat, toNat_append_eq, Nat.shiftRight_zero,
      show (0 : BitVec 16).toNat = 0 from rfl] at hlow
    omega

/-- **The header that is put back** has a right checksum. -/
theorem foeToOrgIpHdr_valid (foe : FoeEntry) (iph : IpHdr) : (foeToOrgIpHdr foe iph).Valid := by
  refine (checksumOk_iff _).mpr ⟨?_, IpHdr.exists_ne_zero _⟩
  -- the checksum is the complement of the other words, so that it takes their residue away
  rw [sum_flatMap_halves]
  simp only [foeToOrgIpHdr, IpHdr.words, ipFastCsum, map_append, sum_append, map_cons,
    map_nil, sum_cons, sum_nil, residue_checkWord, residue_csumFold,
    residue_onesSum casts_thirtyTwo, residue_zero]
  ring

/-! ## The checksum of TCP -/

theorem exists_ne_zero_pseudo {iph : IpHdr} (h : iph.protocol ≠ 0) (len : BitVec 16)
    (words : List (BitVec 16)) : ∃ x ∈ iph.pseudo len ++ words, x ≠ 0 := by
  -- its word of the pseudo-header is not 0
  refine ⟨iph.protocol ++ 0#8, by simp [IpHdr.pseudo], ?_⟩
  intro hzero
  apply h
  have hnat := congrArg BitVec.toNat hzero
  rw [toNat_append_eq] at hnat
  apply eq_of_toNat_eq
  simpa using hnat

theorem sum_pseudo (iph : IpHdr) (len : BitVec 16) : ((iph.pseudo len).map (residue 65535)).sum =
      residue 65535 iph.saddr + residue 65535 iph.daddr + residue 65535 (iph.protocol ++ 0#8) +
        residue 65535 len := by
  simp only [IpHdr.pseudo, map_append, sum_append, sum_halves, map_cons, map_nil, sum_cons, sum_nil]
  ring

section

variable (foe : FoeEntry) (iph : IpHdr)

@[simp] theorem saddr_foeToOrgIpHdr : (foeToOrgIpHdr foe iph).saddr = htonl foe.sip := rfl

@[simp] theorem daddr_foeToOrgIpHdr : (foeToOrgIpHdr foe iph).daddr = htonl foe.dip := rfl

@[simp] theorem protocol_foeToOrgIpHdr : (foeToOrgIpHdr foe iph).protocol = iph.protocol := rfl

@[simp] theorem l4Len_foeToOrgIpHdr : (foeToOrgIpHdr foe iph).l4Len = iph.l4Len := rfl

end

/-- **The header of TCP that is put back** has a right checksum if it had one before. -/
theorem foeToOrgTcpHdr_valid (foe : FoeEntry) {iph : IpHdr} {th : TcpHdr}
    {data : List (BitVec 8)} (hproto : iph.protocol ≠ 0) (h : th.Valid iph data) :
    (foeToOrgTcpHdr foe iph th).Valid (foeToOrgIpHdr foe iph) data := by
  have hsum := ((checksumOk_iff _).mp h).1
  refine (checksumOk_iff _).mpr ⟨?_, ?_⟩
  · -- the words that are exchanged count the other way in the checksum
    rw [← hsum]
    simp only [TcpHdr.words, foeToOrgTcpHdr, residue_foeToOrgCheck, map_append,
      sum_append, map_cons, map_nil, sum_cons, sum_nil, sum_pseudo,
      saddr_foeToOrgIpHdr, daddr_foeToOrgIpHdr, protocol_foeToOrgIpHdr, l4Len_foeToOrgIpHdr]
    ring
  · rw [append_assoc]
    have hproto' : (foeToOrgIpHdr foe iph).protocol ≠ 0 := hproto
    exact exists_ne_zero_pseudo hproto' _ _

/-! ## The handler -/

/-- The packet that the handler puts back, if there is one. -/
def Payload.handled : Payload → Option IpPacket
  | ip p => some p
  | vlan _ (ip p) => some p
  | vlan _ (vlan _ (ip p)) => some p
  | _ => none

theorem handled_ppeKeepAliveHandler {wanVid lanVid : BitVec 16} {foe : FoeEntry} {frame : Payload}
    {p : IpPacket} (h : frame.handled = some p) :
    (ppeKeepAliveHandler wanVid lanVid foe frame).handled = some (p.toOrg foe) := by
  unfold Payload.handled at h
  split at h
  -- without a tag, behind one and behind two
  case h_1 | h_2 | h_3 =>
    cases h
    rfl
  case h_4 => cases h

/-- The packet has the addresses and ports of the entry again. -/
structure HasOrgTuple (foe : FoeEntry) (iph : IpHdr) (source dest : BitVec 16) : Prop where
  saddr : iph.saddr = htonl foe.sip
  daddr : iph.daddr = htonl foe.dip
  source : source = htons foe.sport
  dest : dest = htons foe.dport

/-- **A TCP packet whose checksum is right** has right checksums, of TCP and of IP, after the
    handler has put back its addresses and ports. -/
theorem keep_alive_tcp (wanVid lanVid : BitVec 16) (foe : FoeEntry) (frame : Payload)
    (p : IpPacket) (hp : frame.handled = some p) (th : TcpHdr) (data : List (BitVec 8))
    (htcp : p.l4 = .tcp th data) (hvalid : th.Valid p.iph data) :
    ∃ p' th', (ppeKeepAliveHandler wanVid lanVid foe frame).handled = some p' ∧
      p'.l4 = .tcp th' data ∧ HasOrgTuple foe p'.iph th'.source th'.dest ∧
      th'.Valid p'.iph data ∧ p'.iph.Valid := by
  refine ⟨_, foeToOrgTcpHdr foe p.iph th, handled_ppeKeepAliveHandler hp, ?_, ⟨rfl, rfl, rfl, rfl⟩,
    ?_, foeToOrgIpHdr_valid foe p.iph⟩
  · simp [IpPacket.toOrg, htcp]
  · have hproto : p.iph.protocol = 6 := by
      have h := p.protocol_eq
      rw [htcp] at h
      exact h
    exact foeToOrgTcpHdr_valid foe (by rw [hproto]; decide) hvalid

/-- The header of a packet from 192.168.1.2 to 8.8.8.8. -/
def sentIpHdr (totLen : BitVec 16) (protocol : BitVec 8) : IpHdr :=
  ⟨4, 5, 0, htons totLen, 0, 0, 64, protocol, 0, htonl 0xC0A80102, htonl 0x08080808, [], rfl⟩

/-- A segment from the port 1234 to the port 80. -/
def sentTcpHdr : TcpHdr :=
  ⟨htons 1234, htons 80, 0, 0, htons 0x5010, htons 8192, 63672, 0⟩

/-- A packet with both. -/
def sentTcp : IpPacket := ⟨sentIpHdr 40 6, .tcp sentTcpHdr [], rfl⟩

theorem sentTcpHdr_valid : sentTcpHdr.Valid (sentIpHdr 40 6) [] := by
  show onesSum 0 _ = allOnes 16
  decide

theorem keep_alive_tcp_sent :
    ∃ p' th', (ppeKeepAliveHandler 2 1 ⟨0x0A000001, 0x08080808, 4321, 80⟩ (.ip sentTcp)).handled =
        some p' ∧
      p'.l4 = .tcp th' [] ∧
      HasOrgTuple ⟨0x0A000001, 0x08080808, 4321, 80⟩ p'.iph th'.source th'.dest ∧
      th'.Valid p'.iph [] ∧ p'.iph.Valid :=
  keep_alive_tcp 2 1 _ (.ip sentTcp) sentTcp rfl sentTcpHdr [] rfl sentTcpHdr_valid

/-! ## The checksum of UDP -/

theorem csumPart_eq_allOnes (o n : BitVec 32) (old : BitVec 16) :
    csumPart o n old = allOnes 16 ↔ old = allOnes 16 ∧ o = 0 ∧ n = 0 := by
  rw [csumPart, csumFold, not_eq_allOnes_iff, foldHalves_eq_zero, csumPartial, onesSum_eq_zero,
    setWidth_eq_zero, xor_allOnes_eq, not_eq_zero_iff]
  simp

theorem htons_eq_zero (x : BitVec 16) : htons x = 0 ↔ x = 0 := by
  constructor
  · intro h
    have hnat := congrArg BitVec.toNat h
    apply eq_of_toNat_eq
    simp only [htons, toNat_append_eq, extractLsb'_toNat, Nat.shiftRight_eq_div_pow,
      show (0 : BitVec 16).toNat = 0 from rfl] at hnat ⊢
    omega
  · rintro rfl
    rfl

theorem htonl_eq_zero (x : BitVec 32) : htonl x = 0 ↔ x = 0 := by
  constructor
  · intro h
    have hnat := congrArg BitVec.toNat h
    apply eq_of_toNat_eq
    simp only [htonl, toNat_append_eq, extractLsb'_toNat, Nat.shiftRight_eq_div_pow,
      show (0 : BitVec 32).toNat = 0 from rfl] at hnat ⊢
    omega
  · rintro rfl
    rfl

/-- Nothing but ones is exchanged, for nothing but zeros. -/
structure OnesToZeros (foe : FoeEntry) (iph : IpHdr) (source dest check : BitVec 16) : Prop where
  check : check = allOnes 16
  source : source = allOnes 16
  dest : dest = allOnes 16
  saddr : iph.saddr = allOnes 32
  daddr : iph.daddr = allOnes 32
  sport : foe.sport = 0
  dport : foe.dport = 0
  sip : foe.sip = 0
  dip : foe.dip = 0

/-- **The four calls** give all ones, the 0 of ones' complement that is a checksum, only if there is
    nothing to sum up. -/
theorem foeToOrgCheck_eq_allOnes (foe : FoeEntry) (iph : IpHdr) (source dest check : BitVec 16) :
    foeToOrgCheck foe iph source dest check = allOnes 16 ↔
      OnesToZeros foe iph source dest check := by
  simp only [foeToOrgCheck, csumPart_eq_allOnes, setWidth_eq_zero, xor_allOnes_eq, not_eq_zero_iff,
    htons_eq_zero, htonl_eq_zero]
  constructor
  · rintro ⟨⟨⟨⟨hcheck, hsource, hsport⟩, hdest, hdport⟩, hsaddr, hsip⟩, hdaddr, hdip⟩
    exact ⟨hcheck, hsource, hdest, hsaddr, hdaddr, hsport, hdport, hsip, hdip⟩
  · intro h
    exact ⟨⟨⟨⟨h.check, h.source, h.sport⟩, h.dest, h.dport⟩, h.saddr, h.sip⟩, h.daddr, h.dip⟩

theorem foeToOrgCheck_eq_zero (foe : FoeEntry) (iph : IpHdr) (source dest check : BitVec 16) :
    foeToOrgCheck foe iph source dest check = 0 ↔
      residue 65535 (foeToOrgCheck foe iph source dest check) = 0 ∧
        ¬ OnesToZeros foe iph source dest check := by
  rw [← foeToOrgCheck_eq_allOnes]
  -- two words have the residue 0, and all ones is the other one
  generalize foeToOrgCheck foe iph source dest check = x
  have hones := eq_allOnes_iff (by decide) x
  constructor
  · rintro rfl
    exact ⟨residue_zero _, by decide⟩
  · rintro ⟨hres, hne⟩
    by_contra hzero
    exact hne (hones.mpr ⟨hres, hzero⟩)

/-- A UDP checksum that was right is right, one that was absent is absent, and none that was there
    is. -/
def UdpKept (iph iph' : IpHdr) (uh uh' : UdpHdr) (data : List (BitVec 8)) : Prop :=
  (uh.check = 0 → uh'.check = 0) ∧
    (uh.check ≠ 0 → uh.Valid iph data → uh'.Valid iph' data ∧ uh'.check ≠ 0)

/-- The sum of the words that are exchanged. -/
def tupleSum (saddr daddr : BitVec 32) (source dest : BitVec 16) : Nat :=
  source.toNat + dest.toNat + saddr.toNat + daddr.toNat

/-- The datagram that is put back sums up to all ones without a checksum, which is thus 0. -/
def ComputesZero (foe : FoeEntry) (iph : IpHdr) (uh : UdpHdr) (data : List (BitVec 8)) : Prop :=
  ChecksumOk (udpWords (foeToOrgIpHdr foe iph)
    { uh with source := htons foe.sport, dest := htons foe.dport, check := 0 } data)

/-- When the checksum is kept: an absent one if the exchange does not change the sum, any other one
    if the datagram that is put back has a checksum that is not 0, or if ones are exchanged for
    zeros. -/
structure UdpOk (foe : FoeEntry) (iph : IpHdr) (uh : UdpHdr) (data : List (BitVec 8)) : Prop where
  absent : uh.check = 0 →
    tupleSum iph.saddr iph.daddr uh.source uh.dest % 65535 =
      tupleSum (htonl foe.sip) (htonl foe.dip) (htons foe.sport) (htons foe.dport) % 65535
  used : uh.check ≠ 0 → uh.Valid iph data →
    ¬ ComputesZero foe iph uh data ∨ OnesToZeros foe iph uh.source uh.dest uh.check

theorem cast_tupleSum (saddr daddr : BitVec 32) (source dest : BitVec 16) :
    ((tupleSum saddr daddr source dest : Nat) : ZMod 65535) =
      residue 65535 source + residue 65535 dest + residue 65535 saddr + residue 65535 daddr := by
  simp only [tupleSum, Nat.cast_add, residue]

theorem sum_udpWords (iph : IpHdr) (uh : UdpHdr) (data : List (BitVec 8)) :
    ((udpWords iph uh data).map (residue 65535)).sum =
      ((udpWords iph { uh with check := 0 } data).map (residue 65535)).sum +
        residue 65535 uh.check := by
  simp only [udpWords, UdpHdr.words, map_append, sum_append, map_cons, map_nil,
    sum_cons, sum_nil, sum_pseudo, residue_zero]
  ring

theorem checksumOk_udpWords {iph : IpHdr} (hproto : iph.protocol ≠ 0) (uh : UdpHdr)
    (data : List (BitVec 8)) : ChecksumOk (udpWords iph uh data) ↔
      ((udpWords iph uh data).map (residue 65535)).sum = 0 := by
  rw [checksumOk_iff]
  refine and_iff_left ?_
  rw [udpWords, append_assoc]
  exact exists_ne_zero_pseudo hproto _ _

theorem sum_foeToOrgUdpHdr (foe : FoeEntry) (iph : IpHdr) (uh : UdpHdr) (data : List (BitVec 8)) :
    ((udpWords (foeToOrgIpHdr foe iph) (foeToOrgUdpHdr foe iph uh) data).map (residue 65535)).sum =
      ((udpWords iph uh data).map (residue 65535)).sum := by
  simp only [udpWords, UdpHdr.words, foeToOrgUdpHdr, residue_foeToOrgCheck, map_append,
    sum_append, map_cons, map_nil, sum_cons, sum_nil, sum_pseudo,
    saddr_foeToOrgIpHdr, daddr_foeToOrgIpHdr, protocol_foeToOrgIpHdr]
  ring

theorem absent_iff (foe : FoeEntry) (iph : IpHdr) {source dest check : BitVec 16}
    (hcheck : check = 0) : foeToOrgCheck foe iph source dest check = 0 ↔
      tupleSum iph.saddr iph.daddr source dest % 65535 =
        tupleSum (htonl foe.sip) (htonl foe.dip) (htons foe.sport) (htons foe.dport) % 65535 := by
  have hnot : ¬ OnesToZeros foe iph source dest check := by
    rintro h
    rw [hcheck] at h
    exact absurd h.check (by decide)
  rw [foeToOrgCheck_eq_zero, and_iff_left hnot, residue_foeToOrgCheck, hcheck, residue_zero,
    zero_add, sub_eq_zero, ← Nat.ModEq, ← ZMod.natCast_eq_natCast_iff, cast_tupleSum, cast_tupleSum]

theorem used_iff (foe : FoeEntry) {iph : IpHdr} {uh : UdpHdr} {data : List (BitVec 8)}
    (hproto : iph.protocol ≠ 0) (hvalid : uh.Valid iph data) :
    (foeToOrgUdpHdr foe iph uh).check = 0 ↔
      ComputesZero foe iph uh data ∧ ¬ OnesToZeros foe iph uh.source uh.dest uh.check := by
  have hproto' : (foeToOrgIpHdr foe iph).protocol ≠ 0 := hproto
  have hbefore := (checksumOk_udpWords hproto uh data).mp hvalid
  have hafter := sum_foeToOrgUdpHdr foe iph uh data
  rw [hbefore, sum_udpWords] at hafter
  -- the checksum is what the rest of the sum lacks
  have hres : residue 65535 (foeToOrgUdpHdr foe iph uh).check = 0 ↔
      ComputesZero foe iph uh data := by
    rw [ComputesZero, checksumOk_udpWords hproto']
    have hneg := neg_eq_of_add_eq_zero_left hafter
    constructor
    · intro hzero
      rw [hzero, neg_zero] at hneg
      exact hneg.symm
    · intro hzero
      rw [← neg_eq_zero]
      exact hneg.trans hzero
  rw [← hres]
  exact foeToOrgCheck_eq_zero foe iph uh.source uh.dest uh.check

/-- **A UDP packet** keeps its checksum when the handler puts back its addresses and ports, or goes
    without one as before, if and only if `UdpOk` holds. -/
theorem keep_alive_udp_iff (wanVid lanVid : BitVec 16) (foe : FoeEntry) (frame : Payload)
    (p : IpPacket) (hp : frame.handled = some p) (uh : UdpHdr) (data : List (BitVec 8))
    (hudp : p.l4 = .udp uh data) :
    (∃ p' uh', (ppeKeepAliveHandler wanVid lanVid foe frame).handled = some p' ∧
      p'.l4 = .udp uh' data ∧ HasOrgTuple foe p'.iph uh'.source uh'.dest ∧
      UdpKept p.iph p'.iph uh uh' data) ↔ UdpOk foe p.iph uh data := by
  have hproto : p.iph.protocol ≠ 0 := by
    have h := p.protocol_eq
    rw [hudp] at h
    rw [show p.iph.protocol = 17 from h]
    decide
  have hl4 : (p.toOrg foe).l4 = .udp (foeToOrgUdpHdr foe p.iph uh) data := by
    simp [IpPacket.toOrg, hudp]
  have hkept : UdpKept p.iph (foeToOrgIpHdr foe p.iph) uh (foeToOrgUdpHdr foe p.iph uh) data ↔
      UdpOk foe p.iph uh data := by
    constructor
    · rintro ⟨habsent, hused⟩
      refine ⟨fun hcheck => (absent_iff foe p.iph hcheck).mp (habsent hcheck), ?_⟩
      intro hcheck hvalid
      have hne := mt (used_iff foe hproto hvalid).mpr (hused hcheck hvalid).2
      -- otherwise the checksum would come out as 0, which says that there is none
      by_contra hnot
      exact hne ⟨not_not.mp fun h => hnot (.inl h), fun h => hnot (.inr h)⟩
    · rintro ⟨habsent, hused⟩
      refine ⟨fun hcheck => (absent_iff foe p.iph hcheck).mpr (habsent hcheck), ?_⟩
      intro hcheck hvalid
      constructor
      · -- the sum of the datagram is the same as before
        have hproto' : (foeToOrgIpHdr foe p.iph).protocol ≠ 0 := hproto
        apply (checksumOk_udpWords hproto' _ _).mpr
        rw [sum_foeToOrgUdpHdr]
        exact (checksumOk_udpWords hproto _ _).mp hvalid
      · intro hzero
        obtain ⟨hcomputes, hnot⟩ := (used_iff foe hproto hvalid).mp hzero
        obtain h | h := hused hcheck hvalid
        · exact h hcomputes
        · exact hnot h
  constructor
  · rintro ⟨p', uh', hhandled, hl4', -, hkept'⟩
    -- the packet that was put back is the only one
    rw [handled_ppeKeepAliveHandler hp] at hhandled
    cases hhandled
    rw [hl4] at hl4'
    cases hl4'
    exact hkept.mp hkept'
  · intro hok
    exact ⟨_, _, handled_ppeKeepAliveHandler hp, hl4, ⟨rfl, rfl, rfl, rfl⟩, hkept.mpr hok⟩

/-- A datagram from the port 1234 to the port 53, without a checksum. -/
def sentUdpHdr : UdpHdr := ⟨htons 1234, htons 53, htons 8, 0⟩

/-- A packet with it. -/
def sentUdp : IpPacket := ⟨sentIpHdr 28 17, .udp sentUdpHdr [], rfl⟩

/-- If nothing but the order of the ports is exchanged, the checksum stays absent. -/
theorem keep_alive_udp_swapped_ports :
    ∃ p' uh', (ppeKeepAliveHandler 2 1 ⟨0xC0A80102, 0x08080808, 53, 1234⟩ (.ip sentUdp)).handled =
        some p' ∧
      p'.l4 = .udp uh' [] ∧
      HasOrgTuple ⟨0xC0A80102, 0x08080808, 53, 1234⟩ p'.iph uh'.source uh'.dest ∧
      UdpKept sentUdp.iph p'.iph sentUdpHdr uh' [] := by
  apply (keep_alive_udp_iff 2 1 ⟨0xC0A80102, 0x08080808, 53, 1234⟩ (.ip sentUdp) sentUdp rfl
    sentUdpHdr [] rfl).mpr
  exact ⟨fun _ => by decide, fun hcheck => absurd rfl hcheck⟩

/-- A datagram that has no checksum gets one, which is wrong, when its address is put back. -/
theorem absent_checksum_made_up :
    ¬ UdpKept sentUdp.iph (foeToOrgIpHdr ⟨0x0A000001, 0x08080808, 1234, 53⟩ sentUdp.iph)
      sentUdpHdr (foeToOrgUdpHdr ⟨0x0A000001, 0x08080808, 1234, 53⟩ sentUdp.iph sentUdpHdr) [] := by
  rintro ⟨habsent, -⟩
  exact absurd (habsent rfl) (by decide)

end RalinkSdk.HwNat
