import RalinkSdk.BlockAck.Reorder
import RalinkSdk.IgmpSnoop.LinkList

/-!
# The multicast snooping table

The access point keeps the multicast groups its stations have joined in a table: an
array `Content` of entries, a hash table whose chains run through the entries, and a
pool of member entries that are on the member list of a group or on `freeEntryList`.

A pointer to an entry of `Content` or of `freeMemberPool` is its index, and a null
pointer is `none`.  A function of the model returns `none` where the code follows a null
pointer or where a walk along links does not end.  The clock is read several times in a
call; the readings are a parameter, and nothing is assumed about them.

## Source

`common/igmp_snoop.c`, `include/igmp_snoop.h`, `include/rtmp.h`.
-/

namespace RalinkSdk.IgmpSnoop

open Function

open BlockAck (rtmpTimeAfter)

/-! ## Data -/

abbrev maxLenOfMulticastFilterTable : Nat := 64

abbrev maxLenOfMulticastFilterHashTable : Nat := maxLenOfMulticastFilterTable * 2

abbrev freeMemberPoolSize : Nat := 64

/-- `IGMPMAC_TB_ENTRY_AGEOUT_TIME`: two minutes at 250 ticks a second. -/
def igmpmacTbEntryAgeoutTime : BitVec 32 := 120 * 250

/-- A pointer into `Content`. -/
abbrev Slot := Fin maxLenOfMulticastFilterTable

/-- A pointer into `freeMemberPool`. -/
abbrev Member := Fin freeMemberPoolSize

/-- An index of `Hash`. -/
abbrev Bucket := Fin maxLenOfMulticastFilterHashTable

abbrev MacAddr := Fin 6 → BitVec 8

def macAddrHash (a : MacAddr) : BitVec 8 := a 0 ^^^ a 1 ^^^ a 2 ^^^ a 3 ^^^ a 4 ^^^ a 5

def multicastAddrHashIndex (a : MacAddr) : Bucket :=
  ⟨(macAddrHash a).toNat &&& (maxLenOfMulticastFilterHashTable - 1),
    Nat.lt_succ_of_le Nat.and_le_right⟩

inductive MulticastFilterEntryType where
  | mcatFilterStatic
  | mcatFilterDynamic
  deriving DecidableEq

/-- `MULTICAST_FILTER_TABLE_ENTRY`.  A network device is known by its address. -/
structure Entry where
  valid : Bool
  type : MulticastFilterEntryType
  lastTime : BitVec 32
  netDev : Nat
  addr : MacAddr
  memberList : ListHeader Member
  pNext : Option Slot

def Entry.zero : Entry where
  valid := false
  type := .mcatFilterStatic
  lastTime := 0
  netDev := 0
  addr := fun _ => 0
  memberList := initList
  pNext := none

/-- The entry is that of group `addr` on device `dev`. -/
def Entry.isGroup (x : Entry) (addr : MacAddr) (dev : Nat) : Bool :=
  x.netDev == dev && x.addr == addr

/-- `MULTICAST_FILTER_TABLE`.  `poolNext` and `poolAddr` are the two fields of the
    entries of `freeMemberPool`. -/
structure Table where
  size : BitVec 8
  hash : Bucket → Option Slot
  content : Slot → Entry
  poolNext : Member → Option Member
  poolAddr : Member → MacAddr
  freeEntryList : ListHeader Member

/-- A pointer to a list header: to `freeEntryList` or to the `MemberList` of an entry. -/
inductive ListRef where
  | free
  | members (e : Slot)
  deriving DecidableEq

namespace Table

def setEntry (t : Table) (e : Slot) (x : Entry) : Table :=
  { t with content := update t.content e x }

def setHash (t : Table) (k : Bucket) (p : Option Slot) : Table :=
  { t with hash := update t.hash k p }

/-- `pEntry->pNext = p` -/
def setNext (t : Table) (e : Slot) (p : Option Slot) : Table :=
  t.setEntry e { t.content e with pNext := p }

/-- The list header under a pointer. -/
def header (t : Table) : ListRef → ListHeader Member
  | .free => t.freeEntryList
  | .members e => (t.content e).memberList

def setHeader (t : Table) (r : ListRef) (h : ListHeader Member) : Table :=
  match r with
  | .free => { t with freeEntryList := h }
  | .members e => t.setEntry e { t.content e with memberList := h }

def setPoolNext (t : Table) (next : Member → Option Member) : Table :=
  { t with poolNext := next }

/-- Fuel for a walk along the links of `Content` or of the pool. -/
def walkFuel : Nat := 65

/-! ## Members -/

def insertTailList (t : Table) (pList : ListRef) (pEntry : Member) : Table :=
  let out := IgmpSnoop.insertTailList t.poolNext (t.header pList) pEntry
  (t.setPoolNext out.1).setHeader pList out.2

def delEntryList (t : Table) (pList : ListRef) (pEntry : Member) : Option Table := do
  let out ← IgmpSnoop.delEntryList walkFuel t.poolNext (t.header pList) pEntry
  some ((t.setPoolNext out.1).setHeader pList out.2)

def allocaGrpMemberEntry (t : Table) : Option Member × Table :=
  let out := removeHeadList t.poolNext t.freeEntryList
  (out.1, t.setHeader .free out.2)

def freeGrpMemberEntry (t : Table) (pEntry : Member) : Table :=
  t.insertTailList .free pEntry

/-- `InsertIgmpMember` on the member list of entry `e`.  Without a free member entry
    nothing happens. -/
def insertIgmpMember (t : Table) (e : Slot) (pMemberAddr : MacAddr) : Table :=
  match t.allocaGrpMemberEntry with
  | (none, t) => t
  | (some pMemberEntry, t) =>
    -- `NdisZeroMemory` and `COPY_MAC_ADDR`
    let t := { t with
      poolNext := update t.poolNext pMemberEntry none
      poolAddr := update t.poolAddr pMemberEntry pMemberAddr }
    t.insertTailList (.members e) pMemberEntry

def deleteIgmpMemberScan (e : Slot) (pMemberAddr : MacAddr) :
    Nat → Table → Option Member → Option Table
  | 0, _, _ => none
  | _ + 1, t, none => some t
  | fuel + 1, t, some pCurEntry =>
    if pMemberAddr = t.poolAddr pCurEntry then do
      let t ← t.delEntryList (.members e) pCurEntry
      some (t.freeGrpMemberEntry pCurEntry)
    else
      deleteIgmpMemberScan e pMemberAddr fuel t (t.poolNext pCurEntry)

/-- `DeleteIgmpMember` on the member list of entry `e`.  Its early return for an empty
    list is the first test of the loop. -/
def deleteIgmpMember (t : Table) (e : Slot) (pMemberAddr : MacAddr) : Option Table :=
  deleteIgmpMemberScan e pMemberAddr walkFuel t (t.content e).memberList.pHead

def deleteIgmpMemberListLoop (e : Slot) : Nat → Table → Option Member → Option Table
  | 0, _, _ => none
  | _ + 1, t, none => some t
  | fuel + 1, t, some pCurEntry => do
    let t ← t.delEntryList (.members e) pCurEntry
    -- the link is read before the entry goes to the free list
    deleteIgmpMemberListLoop e fuel (t.freeGrpMemberEntry pCurEntry) (t.poolNext pCurEntry)

def deleteIgmpMemberList (t : Table) (e : Slot) : Option Table :=
  match (t.content e).memberList.pHead with
  | none => some t
  | some pHead => do
    let t ← deleteIgmpMemberListLoop e walkFuel t (some pHead)
    some (t.setHeader (.members e) initList)

/-- `IgmpMemberCnt` of entry `e`. -/
def igmpMemberCnt (t : Table) (e : Slot) : BitVec 8 := (t.content e).memberList.size

/-! ## Lookup -/

/-- `DeleteIgmpMemberList`, `NdisZeroMemory` and `Size --` for an entry. -/
def clearEntry (t : Table) (e : Slot) : Option Table := do
  let t ← t.deleteIgmpMemberList e
  some { t.setEntry e Entry.zero with size := t.size - 1 }

/-- Take entry `e` off chain `k`, where `pPrev` is the entry before it unless it is the
    first, and clear it. -/
def removeEntry (t : Table) (k : Bucket) (pPrev : Option Slot) (e : Slot) : Option Table :=
  if some e = t.hash k then
    (t.setHash k (t.content e).pNext).clearEntry e
  else
    match pPrev with
    | none => none
    | some p => (t.setNext p (t.content e).pNext).clearEntry e

/-- The loop of `MulticastFilterTableLookup`, with the clock reading `times n` for the
    `n`-th entry it looks at. -/
def lookupLoop (k : Bucket) (pAddr : MacAddr) (dev : Nat) (times : Nat → BitVec 32) :
    Nat → Nat → Table → Option Slot → Option Slot → Option (Table × Option Slot)
  | 0, _, _, _, _ => none
  | _ + 1, _, t, _, none => some (t, none)
  | fuel + 1, n, t, pPrev, some e =>
    if (t.content e).valid then
      if (t.content e).isGroup pAddr dev then
        some (t.setEntry e { t.content e with lastTime := times n }, some e)
      else if (t.content e).type = .mcatFilterDynamic ∧
          rtmpTimeAfter (times n) ((t.content e).lastTime + igmpmacTbEntryAgeoutTime) then
        -- remove the aged entry
        if some e = t.hash k then do
          let t' ← t.removeEntry k pPrev e
          lookupLoop k pAddr dev times fuel (n + 1) t' (t'.hash k) (t'.hash k)
        else do
          let t' ← t.removeEntry k pPrev e
          let p ← pPrev
          lookupLoop k pAddr dev times fuel (n + 1) t' (some p) (t'.content p).pNext
      else
        lookupLoop k pAddr dev times fuel (n + 1) t (some e) (t.content e).pNext
    else
      some (t, some e)

def multicastFilterTableLookup (t : Table) (pAddr : MacAddr) (dev : Nat)
    (times : Nat → BitVec 32) : Option (Table × Option Slot) :=
  let k := multicastAddrHashIndex pAddr
  lookupLoop k pAddr dev times walkFuel 0 t (t.hash k) (t.hash k)

/-! ## Deletion -/

/-- The loop of `MulticastFilterTableDeleteEntry`: `pPrevEntry` and `pEntry` at its end. -/
def deleteFind (t : Table) (pGrpId : MacAddr) (dev : Nat) :
    Nat → Option Slot → Option Slot → Option (Option Slot × Option Slot)
  | 0, _, _ => none
  | _ + 1, pPrev, none => some (pPrev, none)
  | fuel + 1, pPrev, some e =>
    if (t.content e).valid then
      if (t.content e).isGroup pGrpId dev then
        some (pPrev, some e)
      else
        t.deleteFind pGrpId dev fuel (some e) (t.content e).pNext
    else
      some (pPrev, some e)

/-- The rest of `MulticastFilterTableDeleteEntry` for the entry found. -/
def deleteFound (t : Table) (k : Bucket) (pMemberAddr : Option MacAddr)
    (pPrev : Option Slot) (e : Slot) : Option Table :=
  match pMemberAddr with
  | none => t.removeEntry k pPrev e
  | some a => do
    let t ← t.deleteIgmpMember e a
    if 0 < t.igmpMemberCnt e then some t else t.removeEntry k pPrev e

/-- `MulticastFilterTableDeleteEntry`, which always returns `TRUE`. -/
def multicastFilterTableDeleteEntry (t : Table) (pGrpId : MacAddr)
    (pMemberAddr : Option MacAddr) (dev : Nat) : Option (Table × Bool) := do
  let k := multicastAddrHashIndex pGrpId
  let found ← t.deleteFind pGrpId dev walkFuel (t.hash k) (t.hash k)
  match found.2 with
  | none => some (t, true)
  | some e => do
    let t ← t.deleteFound k pMemberAddr found.1 e
    some (t, true)

/-! ## Insertion -/

/-- The clock readings of one `MulticastFilterTableInsertEntry`: in its lookup, at each
    slot of its search, and for the time stamp of the new entry. -/
structure Readings where
  lookup : Nat → BitVec 32
  search : Slot → BitVec 32
  stamp : BitVec 32

/-- The walk that unlinks aged entry `i` behind the head of its chain. -/
def unlinkScan (t : Table) (i : Slot) : Nat → Slot → Option Table
  | 0, _ => none
  | fuel + 1, pHashEntry =>
    match (t.content pHashEntry).pNext with
    | none => some t
    | some pNext =>
      if (t.content i).isGroup (t.content pNext).addr (t.content pNext).netDev then
        some { t.setNext pHashEntry (t.content pNext).pNext with size := t.size - 1 }
      else
        t.unlinkScan i fuel pNext

/-- Unlink aged entry `i` from its chain, by comparing group and device. -/
def unlinkAged (t : Table) (i : Slot) : Option Table := do
  let k := multicastAddrHashIndex (t.content i).addr
  let pHashEntry ← t.hash k
  if (t.content i).isGroup (t.content pHashEntry).addr (t.content pHashEntry).netDev then
    some { t.setHash k (t.content pHashEntry).pNext with size := t.size - 1 }
  else
    t.unlinkScan i walkFuel pHashEntry

/-- Age out entry `i` where the search for a vacancy meets it. -/
def ageOut (t : Table) (i : Slot) : Option Table := do
  let t ← t.unlinkAged i
  (t.setEntry i { t.content i with valid := false }).deleteIgmpMemberList i

/-- The entry is `Valid`, dynamic and older than the age-out time. -/
def isAged (t : Table) (i : Slot) (now : BitVec 32) : Bool :=
  (t.content i).valid && (t.content i).type == .mcatFilterDynamic &&
    decide (igmpmacTbEntryAgeoutTime < now - (t.content i).lastTime)

/-- Fill the vacancy `i`. -/
def fillEntry (t : Table) (i : Slot) (pGrpId : MacAddr) (pMemberAddr : Option MacAddr)
    (dev : Nat) (type : MulticastFilterEntryType) (now : BitVec 32) : Table :=
  let t := t.setEntry i { Entry.zero with
    valid := true
    addr := pGrpId
    netDev := dev
    lastTime := now
    type := type
    memberList := initList }
  let t := match pMemberAddr with
    | none => t
    | some a => t.insertIgmpMember i a
  { t with size := t.size + 1 }

/-- The search for a vacancy among the slots: the entry pointer at its end. -/
def allocateEntry (pGrpId : MacAddr) (pMemberAddr : Option MacAddr) (dev : Nat)
    (type : MulticastFilterEntryType) (now : Readings) :
    List Slot → Table → Option Slot → Option (Table × Option Slot)
  | [], t, pEntry => some (t, pEntry)
  | i :: rest, t, _ => do
    let t ← if t.isAged i (now.search i) then t.ageOut i else some t
    if (t.content i).valid then
      allocateEntry pGrpId pMemberAddr dev type now rest t (some i)
    else
      some (t.fillEntry i pGrpId pMemberAddr dev type now.stamp, some i)

/-- The last entry of the chain from entry `pCurrEntry` on. -/
def chainLast (t : Table) : Nat → Slot → Option Slot
  | 0, _ => none
  | fuel + 1, pCurrEntry =>
    match (t.content pCurrEntry).pNext with
    | none => some pCurrEntry
    | some pNext => t.chainLast fuel pNext

/-- Put entry `i` behind the others on chain `k`. -/
def hashAppend (t : Table) (k : Bucket) (i : Slot) : Option Table :=
  match t.hash k with
  | none => some (t.setHash k (some i))
  | some pHead => do
    let pCurrEntry ← t.chainLast walkFuel pHead
    some (t.setNext pCurrEntry (some i))

/-- The walk along the members of a group for `pMemberAddr`. -/
def hasMember (t : Table) (pMemberAddr : MacAddr) : Nat → Option Member → Option Bool
  | 0, _ => none
  | _ + 1, none => some false
  | fuel + 1, some pMemberEntry =>
    if pMemberAddr = t.poolAddr pMemberEntry then some true
    else t.hasMember pMemberAddr fuel (t.poolNext pMemberEntry)

/-- The part of `MulticastFilterTableInsertEntry` for a group that is not in the table. -/
def insertGroup (t : Table) (pGrpId : MacAddr) (pMemberAddr : Option MacAddr) (dev : Nat)
    (type : MulticastFilterEntryType) (now : Readings) : Option Table := do
  let out ← allocateEntry pGrpId pMemberAddr dev type now (List.finRange _) t none
  match out.2 with
  | none => some out.1
  | some i => out.1.hashAppend (multicastAddrHashIndex pGrpId) i

def multicastFilterTableInsertEntry (t : Table) (pGrpId : MacAddr)
    (pMemberAddr : Option MacAddr) (dev : Nat) (type : MulticastFilterEntryType)
    (now : Readings) : Option (Table × Bool) :=
  if maxLenOfMulticastFilterTable ≤ t.size.toNat then
    some (t, false)
  else do
    let out ← t.multicastFilterTableLookup pGrpId dev now.lookup
    match out.2, pMemberAddr with
    | some _, none => some (out.1, false)
    | some e, some a => do
      let present ← out.1.hasMember a walkFuel (out.1.content e).memberList.pHead
      if present then some (out.1, false) else some (out.1.insertIgmpMember e a, true)
    | none, _ => do
      let t ← out.1.insertGroup pGrpId pMemberAddr dev type now
      some (t, true)

/-! ## A station that leaves -/

/-- `DeleteIgmpMember` if a member is given. -/
def leaveGroup (t : Table) (i : Slot) (pMemberAddr : Option MacAddr) : Option Table :=
  match pMemberAddr with
  | none => some t
  | some a => t.deleteIgmpMember i a

/-- One turn of the loop of `IgmpGroupDelMembers`. -/
def groupDelMember (pMemberAddr : Option MacAddr) (pDev : Nat) (t : Table) (i : Slot) :
    Option Table :=
  if (t.content i).valid then do
    let t ← t.leaveGroup i pMemberAddr
    if (t.content i).type = .mcatFilterDynamic ∧ t.igmpMemberCnt i = 0 then do
      let out ← t.multicastFilterTableDeleteEntry (t.content i).addr pMemberAddr pDev
      some out.1
    else
      some t
  else
    some t

def igmpGroupDelMembers (t : Table) (pMemberAddr : Option MacAddr) (pDev : Nat) :
    Option Table :=
  (List.finRange _).foldlM (groupDelMember pMemberAddr pDev) t

end Table

/-! ## Calls -/

/-- The table that `NdisZeroMemory` and `initList` leave. -/
def Table.zero : Table where
  size := 0
  hash := fun _ => none
  content := fun _ => Entry.zero
  poolNext := fun _ => none
  poolAddr := fun _ _ => 0
  freeEntryList := initList

def multicastFilterTableInit : Table :=
  (List.finRange _).foldl (fun t m => t.insertTailList .free m) Table.zero

/-- A call of one of the operations, with what it reads from the clock. -/
inductive Call where
  | insertEntry (pGrpId : MacAddr) (pMemberAddr : Option MacAddr) (dev : Nat)
      (type : MulticastFilterEntryType) (now : Table.Readings)
  | deleteEntry (pGrpId : MacAddr) (pMemberAddr : Option MacAddr) (dev : Nat)
  | lookup (pAddr : MacAddr) (dev : Nat) (times : Nat → BitVec 32)
  | groupDelMembers (pMemberAddr : Option MacAddr) (pDev : Nat)

def Table.call (t : Table) : Call → Option Table
  | .insertEntry pGrpId pMemberAddr dev type now =>
    (t.multicastFilterTableInsertEntry pGrpId pMemberAddr dev type now).map Prod.fst
  | .deleteEntry pGrpId pMemberAddr dev =>
    (t.multicastFilterTableDeleteEntry pGrpId pMemberAddr dev).map Prod.fst
  | .lookup pAddr dev times => (t.multicastFilterTableLookup pAddr dev times).map Prod.fst
  | .groupDelMembers pMemberAddr pDev => t.igmpGroupDelMembers pMemberAddr pDev

end RalinkSdk.IgmpSnoop
