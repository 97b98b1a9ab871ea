import RalinkSdk.Lib.Region
import RalinkSdk.Lib.Tlv

/-!
# RADIUS messages

A message is a buffer on the heap and an array of pointers to the attributes in it.  Attributes
are added at the end of the buffer, which is allocated anew when it is full; then it may move, and
the pointers move with it.

The functions of a message return `none` where the code reads or writes outside the buffer, where
a length comes out negative, or where a loop does not end.  `malloc` and `realloc` may fail and may
return any address; what they do is a parameter.  The digests are parameters as well.

## Source

`user/802.1x/radius.c`, `radius.h`.
-/

namespace RalinkSdk.Radius

open Lib List
open BitVec (ofNat)

/-! ## Data -/

abbrev Byte := BitVec 8

abbrev Addr := BitVec 32

def radiusHdrLen : Nat := 20

def radiusAttrHdrLen : Nat := 2

def radiusMaxAttrLen : Nat := 255 - radiusAttrHdrLen

def radiusDefaultMsgSize : Nat := 1024

def radiusDefaultAttrCount : Nat := 16

abbrev md5MacLen : Nat := 16

def radiusAttrVendorSpecific : Byte := 26

def radiusAttrSessionTimeout : Byte := 27

def radiusAttrTerminationAction : Byte := 29

def radiusAttrEapMessage : Byte := 79

def radiusAttrMessageAuthenticator : Byte := 80

/-- `RADIUS_VENDOR_ID_MICROSOFT` as it stands in a message, in network order. -/
def radiusVendorIdMicrosoft : List Byte := [0, 0, 1, 55]

/-- `sizeof(struct radius_attr_vendor_microsoft)` -/
def radiusVendorHdrLen : Nat := 2

def radiusVendorAttrMsMppeSendKey : Byte := 16

def radiusVendorAttrMsMppeRecvKey : Byte := 17

/-- `struct radius_msg`: the buffer is at `addr` and `buf_size` is its length; `attrs` are the
    pointers in use, of `attrSize`. -/
structure RadiusMsg where
  addr : Addr
  buf : List Byte
  bufUsed : Nat
  attrs : List Addr
  attrSize : Nat

/-- Whether the `n`-th allocation of a call succeeds. -/
abbrev Mem := Nat → Bool

namespace RadiusMsg

variable (m : RadiusMsg)

/-! ## Memory -/

/-- Read `n` bytes at a pointer. -/
def read (p : Addr) (n : Nat) : Option (List Byte) := fetch m.buf (p - m.addr).toNat n

/-- Write bytes at a pointer. -/
def write (p : Addr) (src : List Byte) : Option RadiusMsg :=
  (put m.buf (p - m.addr).toNat src).map fun buf => { m with buf := buf }

/-- `type` and `length` of the attribute at a pointer. -/
def header (p : Addr) : Option (Byte × Byte) := do
  let h ← m.read p radiusAttrHdrLen
  let type ← h[0]?
  let length ← h[1]?
  some (type, length)

/-- `attr->length - sizeof(*attr)` -/
def valueLength (length : Byte) : Option Nat :=
  if radiusAttrHdrLen ≤ length.toNat then some (length.toNat - radiusAttrHdrLen) else none

end RadiusMsg

/-! ## Building -/

def radiusMsgInitialize (initLen : Nat) (addr : Addr) (mem : Mem) : Option RadiusMsg :=
  if initLen < radiusHdrLen then none
  else if mem 0 && mem 1 then
    some ⟨addr, replicate initLen 0, radiusHdrLen, [], radiusDefaultAttrCount⟩
  else none

def radiusMsgNew (code identifier : Byte) (addr : Addr) : Option RadiusMsg := do
  let m ← radiusMsgInitialize radiusDefaultMsgSize addr fun _ => true
  -- `Radius_msg_set_hdr`
  m.write m.addr [code, identifier]

/-- The loop that doubles a length; an `int` can be doubled 31 times. -/
def doubleUntil : Nat → Nat → Nat → Option Nat
  | 0, _, _ => none
  | fuel + 1, nlen, needed =>
    if nlen < needed then doubleUntil fuel (nlen * 2) needed else some nlen

namespace RadiusMsg

variable (m : RadiusMsg)

/-- `Radius_msg_add_attr_to_array`, for an array that can grow or not: whether it succeeds. -/
def radiusMsgAddAttrToArray (attr : Addr) (grows : Bool) : Option (RadiusMsg × Bool) :=
  if m.attrSize ≤ m.attrs.length then
    if !grows then some (m, false)
    else if m.attrs.length < m.attrSize * 2 then
      some ({ m with attrs := m.attrs ++ [attr], attrSize := m.attrSize * 2 }, true)
    else none
  else some ({ m with attrs := m.attrs ++ [attr] }, true)

/-- What the allocations of a call that adds an attribute do: where the buffer goes, and whether
    the array can grow. -/
structure Alloc where
  buf : Option Addr
  grows : Bool

/-- The buffer is allocated anew, at `nbuf`, and the pointers are adjusted. -/
def moveTo (nbuf : Addr) (nlen : Nat) : RadiusMsg :=
  let diff := nbuf - m.addr
  { m with
    addr := nbuf
    buf := m.buf ++ replicate (nlen - m.buf.length) 0
    attrs := m.attrs.map (· + diff) }

/-- The end of `Radius_msg_add_attr`, where there is room in the buffer. -/
def storeAttr (type : Byte) (data : List Byte) (grows : Bool) :
    Option (RadiusMsg × Option Addr) := do
  let attr := m.addr + ofNat 32 m.bufUsed
  let m ← m.write attr [type, ofNat 8 (radiusAttrHdrLen + data.length)]
  let m ← m.write (attr + ofNat 32 radiusAttrHdrLen) data
  let m := { m with bufUsed := m.bufUsed + radiusAttrHdrLen + data.length }
  let (m, ok) ← m.radiusMsgAddAttrToArray attr grows
  some (m, if ok then some attr else none)

/-- `Radius_msg_add_attr`: the attribute, or null. -/
def radiusMsgAddAttr (type : Byte) (data : List Byte) (alloc : Alloc) :
    Option (RadiusMsg × Option Addr) :=
  if radiusMaxAttrLen < data.length then some (m, none)
  else
    let bufNeeded := m.bufUsed + radiusAttrHdrLen + data.length
    if m.buf.length < bufNeeded then do
      let nlen ← doubleUntil 32 m.buf.length bufNeeded
      match alloc.buf with
      | none => some (m, none)
      | some nbuf => (m.moveTo nbuf nlen).storeAttr type data alloc.grows
    else m.storeAttr type data alloc.grows

/-- `Radius_msg_add_eap`, where `allocs n` is about the `n`-th piece: whether it succeeds. -/
def radiusMsgAddEap : Nat → RadiusMsg → List Byte → (Nat → Alloc) → Option (RadiusMsg × Bool)
  | 0, _, _, _ => none
  | fuel + 1, m, data, allocs =>
    if 0 < data.length then do
      let len := if radiusMaxAttrLen < data.length then radiusMaxAttrLen else data.length
      let (m, attr) ← m.radiusMsgAddAttr radiusAttrEapMessage (data.take len) (allocs 0)
      if attr.isNone then some (m, false)
      else radiusMsgAddEap fuel m (data.drop len) fun n => allocs (n + 1)
    else some (m, true)

/-- `msg->hdr->length = htons(msg->buf_used)` -/
def setLength : Option RadiusMsg :=
  m.write (m.addr + 2) (be16 (ofNat 16 m.bufUsed))

def radiusMsgFinish (hmacMd5 : List Byte → List Byte → Buf md5MacLen) (secret : Option (List Byte))
    (alloc : Alloc) : Option RadiusMsg :=
  match secret with
  | none => m.setLength
  | some secret => do
    let (m, attr) ← m.radiusMsgAddAttr radiusAttrMessageAuthenticator
      (replicate md5MacLen 0) alloc
    let m ← m.setLength
    let bytes ← m.read m.addr m.bufUsed
    -- with a null pointer the digest would go to a low address
    let attr ← attr
    m.write (attr + ofNat 32 radiusAttrHdrLen) (hmacMd5 secret bytes).bytes

end RadiusMsg

/-! ## Parsing -/

/-- The loop of `Radius_msg_parse` at offset `pos`; `grows` says for each number of attributes
    whether the array can grow. -/
def parseLoop (grows : Nat → Bool) : Nat → RadiusMsg → Nat → Option (Option RadiusMsg)
  | 0, _, _ => none
  | fuel + 1, m, pos =>
    if pos < m.bufUsed then
      if m.bufUsed - pos < radiusAttrHdrLen then some none
      else do
        let attr := m.addr + ofNat 32 pos
        let (_, length) ← m.header attr
        if m.bufUsed < pos + length.toNat || length.toNat < radiusAttrHdrLen then some none
        else do
          let (m, ok) ← m.radiusMsgAddAttrToArray attr (grows m.attrs.length)
          if ok then parseLoop grows fuel m (pos + length.toNat) else some none
    else some (some m)

/-- `Radius_msg_parse`: a message in a buffer at `addr`, or null. -/
def radiusMsgParse (data : List Byte) (addr : Addr) (mem : Mem) (grows : Nat → Bool) :
    Option (Option RadiusMsg) :=
  if data.length < radiusHdrLen then some none
  else do
    let field ← fetch data 2 2
    let high ← field[0]?
    let low ← field[1]?
    let msgLen := (high ++ low).toNat
    if msgLen < radiusHdrLen || data.length < msgLen then some none
    else if !mem 0 then some none
    else
      match radiusMsgInitialize msgLen addr fun n => mem (n + 1) with
      | none => some none
      | some m => do
        let bytes ← fetch data 0 msgLen
        let m ← m.write m.addr bytes
        parseLoop grows (msgLen + 1) { m with bufUsed := msgLen } radiusHdrLen

namespace RadiusMsg

variable (m : RadiusMsg)

/-! ## EAP -/

/-- The first loop of `Radius_msg_get_eap`. -/
def eapLength : List Addr → Nat → Option Nat
  | [], len => some len
  | attr :: attrs, len => do
    let (type, length) ← m.header attr
    if type = radiusAttrEapMessage then do
      let flen ← valueLength length
      eapLength attrs (len + flen)
    else eapLength attrs len

/-- The second loop of `Radius_msg_get_eap`, for what has been copied so far. -/
def eapCopy : List Addr → List Byte → Option (List Byte)
  | [], eap => some eap
  | attr :: attrs, eap => do
    let (type, length) ← m.header attr
    if type = radiusAttrEapMessage then do
      let flen ← valueLength length
      let piece ← m.read (attr + ofNat 32 radiusAttrHdrLen) flen
      eapCopy attrs (eap ++ piece)
    else eapCopy attrs eap

/-- `Radius_msg_get_eap`: the EAP packet, or null. -/
def radiusMsgGetEap (mem : Mem) : Option (Option (List Byte)) := do
  let len ← m.eapLength m.attrs 0
  if len = 0 || !mem 0 then some none
  else do
    let eap ← m.eapCopy m.attrs []
    if eap.length ≤ len then some (some eap) else none

/-! ## Verifying -/

/-- The loop of `Radius_msg_verify`: the Message-Authenticator, if there is one and no other. -/
def messageAuthenticator : List Addr → Option Addr → Option (Option Addr)
  | [], attr => some attr
  | p :: attrs, attr => do
    let (type, _) ← m.header p
    if type = radiusAttrMessageAuthenticator then
      if attr.isSome then some none else messageAuthenticator attrs (some p)
    else messageAuthenticator attrs attr

/-- `Radius_msg_verify` with the authenticator of the request: whether it returns 0. -/
def radiusMsgVerify (md5 : List Byte → Buf md5MacLen)
    (hmacMd5 : List Byte → List Byte → Buf md5MacLen) (secret : List Byte)
    (sent : Option (Buf md5MacLen)) : Option (RadiusMsg × Bool) :=
  match sent with
  | none => some (m, false)
  | some sent => do
    match ← m.messageAuthenticator m.attrs none with
    | none => some (m, false)
    | some attr => do
      let value := attr + ofNat 32 radiusAttrHdrLen
      let authenticator := m.addr + 4
      let orig ← m.read value md5MacLen
      let m ← m.write value (replicate md5MacLen 0)
      let origAuthenticator ← m.read authenticator md5MacLen
      let m ← m.write authenticator sent.bytes
      let bytes ← m.read m.addr m.bufUsed
      let m ← m.write value orig
      let m ← m.write authenticator origAuthenticator
      if orig ≠ (hmacMd5 secret bytes).bytes then some (m, false)
      else do
        let head ← m.read m.addr 4
        let attributes ← m.read (m.addr + ofNat 32 radiusHdrLen) (m.bufUsed - radiusHdrLen)
        let response ← m.read authenticator md5MacLen
        some (m, (md5 (head ++ sent.bytes ++ attributes ++ secret)).bytes == response)

/-! ## Keys -/

/-- What the walk over the vendor attributes of one attribute comes to: it goes on with the next
    attribute, or the function returns. -/
inductive Search where
  | goOn
  | done (data : Option (List Byte))
  deriving DecidableEq

/-- The inner loop of `Radius_msg_get_ms_attr`, at `pos` with `left` bytes. -/
def msAttrLoop (msType : Byte) (allocated : Bool) : Nat → Addr → Nat → Option Search
  | 0, _, _ => none
  | fuel + 1, pos, left =>
    if radiusVendorHdrLen ≤ left then do
      let (vendorType, vendorLength) ← m.header pos
      if left < vendorLength.toNat then some .goOn
      else if vendorType ≠ msType then
        msAttrLoop msType allocated fuel (pos + ofNat 32 vendorLength.toNat)
          (left - vendorLength.toNat)
      else do
        let len ← valueLength vendorLength
        if allocated then do
          let data ← m.read (pos + ofNat 32 radiusVendorHdrLen) len
          some (.done (some data))
        else some (.done none)
    else some .goOn

/-- How often the inner loop can go round when every vendor attribute has a length. -/
def msAttrFuel : Nat := 256

/-- The outer loop of `Radius_msg_get_ms_attr`. -/
def msAttrSearch (msType : Byte) (allocated : Bool) : List Addr → Option (Option (List Byte))
  | [] => some none
  | attr :: attrs => do
    let (type, length) ← m.header attr
    if type ≠ radiusAttrVendorSpecific then msAttrSearch msType allocated attrs
    else do
      let left ← valueLength length
      if left < 4 then msAttrSearch msType allocated attrs
      else do
        let pos := attr + ofNat 32 radiusAttrHdrLen
        let vendorId ← m.read pos 4
        if vendorId ≠ radiusVendorIdMicrosoft then msAttrSearch msType allocated attrs
        else do
          match ← m.msAttrLoop msType allocated msAttrFuel (pos + 4) (left - 4) with
          | .goOn => msAttrSearch msType allocated attrs
          | .done data => some data

/-- `Radius_msg_get_ms_attr`: the payload, or null. -/
def radiusMsgGetMsAttr (msType : Byte) (allocated : Bool) : Option (Option (List Byte)) :=
  m.msAttrSearch msType allocated m.attrs

/-! ## Attributes by type -/

/-- The search of `Radius_msg_get_attr`: the first `len` bytes of the value of the first attribute
    of a type, and the length of the value. -/
def getAttr (type : Byte) (len : Nat) : List Addr → Option (Option (List Byte × Nat))
  | [] => some none
  | attr :: attrs => do
    let (attrType, length) ← m.header attr
    if attrType = type then do
      let dlen ← valueLength length
      let buf ← m.read (attr + ofNat 32 radiusAttrHdrLen) (if len < dlen then len else dlen)
      some (some (buf, dlen))
    else getAttr type len attrs

/-- `Radius_msg_get_attr`; it returns -1 where this is `none`. -/
def radiusMsgGetAttr (type : Byte) (len : Nat) : Option (Option (List Byte × Nat)) :=
  m.getAttr type len m.attrs

def radiusMsgGetAttrInt32 (type : Byte) : Option (Option (BitVec 32)) := do
  match ← m.radiusMsgGetAttr type 4 with
  | some ([b0, b1, b2, b3], 4) => some (some (b0 ++ b1 ++ b2 ++ b3))
  | _ => some none

end RadiusMsg

/-- What is hashed for the block at offset `pos`, behind the secret. -/
def hashedFor (key : List Byte) (authenticator : Buf md5MacLen) (first : Bool) (pos : Nat) :
    Option (List Byte) :=
  if first then (fetch key 0 2).map (authenticator.bytes ++ ·)
  else fetch key (pos - md5MacLen) md5MacLen

/-- The loop of `decrypt_ms_key`, at offset `pos` of the key, for what it has decrypted so far. -/
def decryptLoop (md5 : List Byte → Buf md5MacLen) (key secret : List Byte)
    (authenticator : Buf md5MacLen) : Nat → Bool → Nat → Nat → List Byte → Option (List Byte)
  | 0, _, _, _, _ => none
  | fuel + 1, first, pos, left, plain =>
    if 0 < left then do
      let hashed ← hashedFor key authenticator first pos
      let hash := md5 (secret ++ hashed)
      let block ← fetch key pos md5MacLen
      decryptLoop md5 key secret authenticator fuel false (pos + md5MacLen) (left - md5MacLen)
        (plain ++ zipWith (· ^^^ ·) block hash.bytes)
    else some plain

/-- `decrypt_ms_key`: the key, or null.  Its allocations are those of `plain` and of `res`. -/
def decryptMsKey (md5 : List Byte → Buf md5MacLen) (key : List Byte) (authenticator : Buf md5MacLen)
    (secret : List Byte) (mem : Mem) : Option (Option (List Byte)) :=
  if key.length < 2 + 16 then some none
  else
    let left := key.length - 2
    if left % 16 ≠ 0 then some none
    else if !mem 0 then some none
    else do
      let plain ← decryptLoop md5 key secret authenticator (left + 1) true 2 left []
      let length ← plain[0]?
      if left - 1 < length.toNat then some none
      else if !mem 1 then some none
      else do
        let res ← fetch plain 1 length.toNat
        some (some res)

structure RadiusMsMppeKeys where
  send : Option (List Byte)
  recv : Option (List Byte)
  deriving DecidableEq

/-- One half of `Radius_msg_get_ms_keys`; its allocations are those of the attribute and of
    `decrypt_ms_key`. -/
def RadiusMsg.getMsKey (m : RadiusMsg) (md5 : List Byte → Buf md5MacLen) (msType : Byte)
    (authenticator : Buf md5MacLen) (secret : List Byte) (mem : Mem) :
    Option (Option (List Byte)) := do
  match ← m.radiusMsgGetMsAttr msType (mem 0) with
  | none => some none
  | some key => decryptMsKey md5 key authenticator secret fun n => mem (n + 1)

def RadiusMsg.radiusMsgGetMsKeys (m : RadiusMsg) (md5 : List Byte → Buf md5MacLen)
    (sent : Option (Buf md5MacLen)) (secret : List Byte) (mem : Mem) :
    Option (Option RadiusMsMppeKeys) :=
  match sent with
  | none => some none
  | some authenticator =>
    if !mem 0 then some none
    else do
      let send ← m.getMsKey md5 radiusVendorAttrMsMppeSendKey authenticator secret
        fun n => mem (n + 1)
      let recv ← m.getMsKey md5 radiusVendorAttrMsMppeRecvKey authenticator secret
        fun n => mem (n + 4)
      some (some ⟨send, recv⟩)

end RalinkSdk.Radius
