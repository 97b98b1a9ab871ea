import RalinkSdk.Lib.OnesComplement

/-!
# Packets that keep a translation alive

The hardware passes a packet of a bound flow to the CPU from time to time, with its addresses and
ports translated.  `PpeKeepAliveHandler` puts back what the flow had before, and the checksums are
changed along with it: that of TCP or UDP from the words that are exchanged, that of IP anew.

Words are as the machine loads them, which has the byte of the lowest address in the lowest bits;
fields in network order are turned over by `htons` and `htonl`.  The addresses of the second layer,
which the handler changes too, are left out.

## Source

`net/nat/hw_nat/util.c`, `net/nat/hw_nat/ra_nat.c`, `include/asm-mips/checksum.h`.
-/

namespace RalinkSdk.HwNat

open Lib

/-! ## Checksums of the kernel -/

def htons (x : BitVec 16) : BitVec 16 := x.extractLsb' 0 8 ++ x.extractLsb' 8 8

def htonl (x : BitVec 32) : BitVec 32 :=
  x.extractLsb' 0 8 ++ x.extractLsb' 8 8 ++ x.extractLsb' 16 8 ++ x.extractLsb' 24 8

/-- `csum_partial`, over words of 32 bits. -/
def csumPartial (words : List (BitVec 32)) (sum : BitVec 32) : BitVec 32 := onesSum sum words

def csumFold (sum : BitVec 32) : BitVec 16 := ~~~foldHalves sum

def ipFastCsum (words : List (BitVec 32)) : BitVec 16 := csumFold (onesSum 0 words)

def csumPart (o n : BitVec 32) (old : BitVec 16) : BitVec 16 :=
  csumFold (csumPartial [o, n] ((old ^^^ 0xFFFF).setWidth 32))

/-! ## Headers -/

structure TcpHdr where
  source : BitVec 16
  dest : BitVec 16
  seq : BitVec 32
  ackSeq : BitVec 32
  doffFlags : BitVec 16
  window : BitVec 16
  check : BitVec 16
  urgPtr : BitVec 16

structure UdpHdr where
  source : BitVec 16
  dest : BitVec 16
  len : BitVec 16
  check : BitVec 16

/-- `struct iphdr`, with its options in words. -/
structure IpHdr where
  version : BitVec 4
  ihl : BitVec 4
  tos : BitVec 8
  totLen : BitVec 16
  id : BitVec 16
  fragOff : BitVec 16
  ttl : BitVec 8
  protocol : BitVec 8
  check : BitVec 16
  saddr : BitVec 32
  daddr : BitVec 32
  options : List (BitVec 32)
  length_eq : ihl.toNat = 5 + options.length

/-- What follows the header of IP; the last byte of an odd number is a word with 0. -/
inductive L4 where
  | tcp (th : TcpHdr) (data : List (BitVec 8))
  | udp (uh : UdpHdr) (data : List (BitVec 8))
  | other (data : List (BitVec 8))

/-- The numbers `IPPROTO_TCP` and `IPPROTO_UDP` are for those two only. -/
def L4.IsOf : L4 → BitVec 8 → Prop
  | tcp _ _, protocol => protocol = 6
  | udp _ _, protocol => protocol = 17
  | other _, protocol => protocol ≠ 6 ∧ protocol ≠ 17

structure IpPacket where
  iph : IpHdr
  l4 : L4
  protocol_eq : l4.IsOf iph.protocol

/-- The words of a header, of which `ihl` says the number. -/
def IpHdr.words (iph : IpHdr) : List (BitVec 32) :=
  [iph.totLen ++ iph.tos ++ iph.version ++ iph.ihl, iph.fragOff ++ iph.id,
    iph.check ++ iph.protocol ++ iph.ttl, iph.saddr, iph.daddr] ++ iph.options

/-- `ipv4_hnapt` of `struct FoeEntry`: addresses and ports as they were, in the order of the
    machine. -/
structure FoeEntry where
  sip : BitVec 32
  dip : BitVec 32
  sport : BitVec 16
  dport : BitVec 16

/-! ## Putting back -/

/-- The four calls of `CsumPart` in `FoeToOrgTcpHdr` and `FoeToOrgUdpHdr`. -/
def foeToOrgCheck (foe : FoeEntry) (iph : IpHdr) (source dest check : BitVec 16) : BitVec 16 :=
  -- the words that go are given complemented, those that come as they are
  let check := csumPart ((source ^^^ 0xFFFF).setWidth 32) ((htons foe.sport).setWidth 32) check
  let check := csumPart ((dest ^^^ 0xFFFF).setWidth 32) ((htons foe.dport).setWidth 32) check
  let check := csumPart (~~~iph.saddr) (htonl foe.sip) check
  csumPart (~~~iph.daddr) (htonl foe.dip) check

def foeToOrgTcpHdr (foe : FoeEntry) (iph : IpHdr) (th : TcpHdr) : TcpHdr :=
  { th with
    check := foeToOrgCheck foe iph th.source th.dest th.check
    source := htons foe.sport
    dest := htons foe.dport }

def foeToOrgUdpHdr (foe : FoeEntry) (iph : IpHdr) (uh : UdpHdr) : UdpHdr :=
  { uh with
    -- as for TCP, with no test for the 0 that stands for no checksum
    check := foeToOrgCheck foe iph uh.source uh.dest uh.check
    source := htons foe.sport
    dest := htons foe.dport }

def foeToOrgIpHdr (foe : FoeEntry) (iph : IpHdr) : IpHdr :=
  -- the sum is taken with 0 for the checksum
  let iph := { iph with saddr := htonl foe.sip, daddr := htonl foe.dip, check := 0 }
  { iph with check := ipFastCsum iph.words }

def IpPacket.toOrg (foe : FoeEntry) (p : IpPacket) : IpPacket where
  iph := foeToOrgIpHdr foe p.iph
  l4 := match p.l4 with
    | .tcp th data => .tcp (foeToOrgTcpHdr foe p.iph th) data
    | .udp uh data => .udp (foeToOrgUdpHdr foe p.iph uh) data
    | .other data => .other data
  protocol_eq := by
    have h := p.protocol_eq
    revert h
    cases p.l4 <;> exact id

/-- What a frame carries.  `other` is any other type, PPPoE and IP version 6 among them. -/
inductive Payload where
  | ip (p : IpPacket)
  | vlan (tci : BitVec 16) (inner : Payload)
  | other (proto : BitVec 16)

/-- A packet of IP is put back, anything else left as it is. -/
def Payload.toOrg (foe : FoeEntry) : Payload → Payload
  | ip p => ip (p.toOrg foe)
  | payload => payload

/-- `PpeKeepAliveHandler`: the packet is looked for behind up to two tags, and the outer one is
    made that of the other side. -/
def ppeKeepAliveHandler (wanVid lanVid : BitVec 16) (foe : FoeEntry) : Payload → Payload
  | .vlan tci inner =>
    -- a packet from the WAN is made one from the LAN, and the other way round
    let tci := if htons tci = wanVid then htons lanVid else htons wanVid
    match inner with
    -- the inner tag stays
    | .vlan tci₂ inner => .vlan tci (.vlan tci₂ (inner.toOrg foe))
    | inner => .vlan tci (inner.toOrg foe)
  | payload => payload.toOrg foe

end RalinkSdk.HwNat
