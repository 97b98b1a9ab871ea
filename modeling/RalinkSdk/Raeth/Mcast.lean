import Mathlib.Data.List.Infix
import RalinkSdk.Lib.KeyedSlots
import RalinkSdk.Lib.Run

/-!
# The filter for echoed multicast packets

The Ethernet driver remembers the multicast packets that it has sent, since the switch may send
them back, and drops as many packets with the same addresses as it has sent.  An entry that is not
used for some seconds may be overwritten by another one.

## Source

`drivers/net/raeth/mcast.c`.
-/

namespace RalinkSdk.Raeth

open Lib List Function

/-! ## Data -/

abbrev maxMcastEntry : Nat := 16

/-- An index of `mcast_tbl`. -/
abbrev Slot := Fin maxMcastEntry

def ageingTime : BitVec 32 := 5

/-- `time_after` on a long of 32 bits. -/
def timeAfter (a b : BitVec 32) : Bool := (b - a).msb

abbrev Mac := Fin 6 → BitVec 8

/-- `mcast_entry`; `valid` is 0 or 1 in the source. -/
structure McastEntry where
  srcMac : Mac
  dstMac : Mac
  vlanId : BitVec 16
  valid : Bool
  useCount : BitVec 32
  ageout : BitVec 32

/-- What an entry is searched by. -/
structure McastKey where
  vlanId : BitVec 16
  srcMac : Mac
  dstMac : Mac
  deriving DecidableEq

def McastEntry.key (x : McastEntry) : McastKey := ⟨x.vlanId, x.srcMac, x.dstMac⟩

structure McastTbl where
  tbl : Slot → McastEntry
  entryNum : Int

/-- The table when the driver is loaded, all zero. -/
def McastTbl.init : McastTbl := ⟨fun _ => ⟨fun _ => 0, fun _ => 0, 0, false, 0, 0⟩, 0⟩

/-- The fields of `struct vlan_ethhdr` that are read; the protocol as `ntohs` returns it. -/
structure VlanEthhdr where
  hDest : Mac
  hSource : Mac
  hVlanProto : BitVec 16
  hVlanTCI : BitVec 16

/-! ## The functions -/

local instance (priority := 1200) instNeZeroSix : NeZero 6 := ⟨Nat.succ_ne_zero 5⟩
local instance (priority := 1200) instNeZeroSixteen : NeZero 16 := ⟨Nat.succ_ne_zero 15⟩

def isMulticastPkt (mac : Mac) : Bool := mac 0 == 0x01 && mac 1 == 0x00 && mac 2 == 0x5E

/-- `mcast_entry_get`; `none` is -1. -/
def mcastEntryGet (s : McastTbl) (vlanId : BitVec 16) (srcMac dstMac : Mac) :
    Option Slot :=
  (finRange maxMcastEntry).find? fun i => (s.tbl i).vlanId == vlanId &&
    (s.tbl i).srcMac == srcMac && (s.tbl i).dstMac == dstMac && (s.tbl i).valid

/-- `__add_mcast_entry`: an empty entry is used, or an aged one. -/
def addMcastEntry (hz jiffies : BitVec 32) (s : McastTbl) (vlanId : BitVec 16)
    (srcMac dstMac : Mac) : McastTbl × Int :=
  match (finRange maxMcastEntry).find? fun i =>
      !(s.tbl i).valid || timeAfter jiffies (s.tbl i).ageout with
  | some i =>
    ({ tbl := update s.tbl i ⟨srcMac, dstMac, vlanId, true, 1, jiffies + ageingTime * hz⟩
       entryNum := if (s.tbl i).valid then s.entryNum else s.entryNum + 1 }, 1)
  | none => (s, 0)

def mcastEntryIns (hz jiffies : BitVec 32) (s : McastTbl) (vlanId : BitVec 16)
    (srcMac dstMac : Mac) : McastTbl × Int :=
  match mcastEntryGet s vlanId srcMac dstMac with
  | some i =>
    let x := s.tbl i
    let y := { x with useCount := x.useCount + 1, ageout := jiffies + ageingTime * hz }
    ({ s with tbl := update s.tbl i y }, 1)
  | none => addMcastEntry hz jiffies s vlanId srcMac dstMac

def mcastEntryDel (s : McastTbl) (vlanId : BitVec 16) (srcMac dstMac : Mac) : McastTbl × Int :=
  match mcastEntryGet s vlanId srcMac dstMac with
  | some i =>
    let x := { s.tbl i with useCount := (s.tbl i).useCount - 1 }
    if x.useCount = 0 then
      (⟨update s.tbl i { x with valid := false }, s.entryNum - 1⟩, 0)
    else ({ s with tbl := update s.tbl i x }, 0)
  | none => (s, 1)

/-- `mcast_rx` behind the test of `mcast_entry_num`. -/
def mcastRxChecked (s : McastTbl) (eth : VlanEthhdr) : McastTbl × Int :=
  if isMulticastPkt eth.hDest then
    if eth.hVlanProto = 0x8100 then mcastEntryDel s eth.hVlanTCI eth.hSource eth.hDest
    else mcastEntryDel s 0 eth.hSource eth.hDest
  else (s, 1)

/-- `mcast_rx`: 0 drops the packet. -/
def mcastRx (s : McastTbl) (eth : VlanEthhdr) : McastTbl × Int :=
  if s.entryNum = 0 then (s, 1) else mcastRxChecked s eth

def mcastTx (hz jiffies : BitVec 32) (s : McastTbl) (eth : VlanEthhdr) : McastTbl × Int :=
  if isMulticastPkt eth.hDest then
    if eth.hVlanProto = 0x8100 then
      ((mcastEntryIns hz jiffies s eth.hVlanTCI eth.hSource eth.hDest).1, 1)
    else ((mcastEntryIns hz jiffies s 0 eth.hSource eth.hDest).1, 1)
  else (s, 1)

/-! ## Runs -/

/-- A packet; a sent one with the time. -/
inductive Packet where
  | tx (eth : VlanEthhdr) (jiffies : BitVec 32)
  | rx (eth : VlanEthhdr)

def step (hz : BitVec 32) (s : McastTbl) : Packet → McastTbl
  | .tx eth jiffies => (mcastTx hz jiffies s eth).1
  | .rx eth => (mcastRx s eth).1

/-- The table after the packets `es`. -/
def after (hz : BitVec 32) (es : List Packet) : McastTbl := runEvents (step hz) .init es

/-- The key that a packet is filtered by. -/
def VlanEthhdr.key (eth : VlanEthhdr) : McastKey :=
  ⟨if eth.hVlanProto = 0x8100 then eth.hVlanTCI else 0, eth.hSource, eth.hDest⟩

/-- A multicast packet with the key `k` is sent. -/
def Sends (k : McastKey) : Packet → Prop
  | .tx eth _ => isMulticastPkt eth.hDest ∧ eth.key = k
  | .rx _ => False

/-- A multicast packet with the key `k` is dropped. -/
def Drops (k : McastKey) (s : McastTbl) : Packet → Prop
  | .tx _ _ => False
  | .rx eth => isMulticastPkt eth.hDest ∧ eth.key = k ∧ (mcastRx s eth).2 = 0

open Classical in
/-- The sends of `k` minus the drops of `k` among the packets `es`. -/
noncomputable def balance (hz : BitVec 32) (k : McastKey) : McastTbl → List Packet → Int
  | _, [] => 0
  | s, e :: es => (if Sends k e then 1 else 0) - (if Drops k s e then 1 else 0) +
      balance hz k (step hz s e) es

/-- Entry `i` is valid and has the key `k`. -/
def McastTbl.Holds (s : McastTbl) (i : Slot) (k : McastKey) : Prop :=
  (s.tbl i).valid = true ∧ (s.tbl i).key = k

/-- The entry `i` was made by one of the packets `es`, has been valid ever since, and counts 1 plus
    the sends of its key minus the drops since then. -/
def CountedSince (hz : BitVec 32) (es : List Packet) (i : Slot) : Prop :=
  let k := ((after hz es).tbl i).key
  ∃ before e later, es = before ++ e :: later ∧ Sends k e ∧
    (∀ j, ¬ (after hz before).Holds j k) ∧
    (∀ mid, mid <+: later → (after hz (before ++ e :: mid)).Holds i k) ∧
    (((after hz es).tbl i).useCount.toNat : Int) =
      1 + balance hz k (after hz (before ++ [e])) later

/-- The table after the packets `es` is as it should be. -/
structure FilterOk (hz : BitVec 32) (es : List Packet) : Prop where
  entryNum : (after hz es).entryNum =
    (Finset.univ.filter fun i => ((after hz es).tbl i).valid = true).card
  distinct : ∀ i j k, (after hz es).Holds i k → (after hz es).Holds j k → i = j
  counted : ∀ i, ((after hz es).tbl i).valid →
    1 ≤ ((after hz es).tbl i).useCount.toNat ∧ CountedSince hz es i
  drops : ∀ eth, isMulticastPkt eth.hDest →
    ((mcastRx (after hz es) eth).2 = 0 ↔ ∃ i, (after hz es).Holds i eth.key)
  earlyExit : ∀ eth, mcastRx (after hz es) eth = mcastRxChecked (after hz es) eth

/-- A multicast packet is not sent while the counter of its entry is full. -/
def NotFull (s : McastTbl) (e : Packet) : Prop :=
  ∀ i k, s.Holds i k → Sends k e → (s.tbl i).useCount ≠ BitVec.allOnes 32

/-! ## What a packet does -/

/-- The key that an entry holds. -/
def McastTbl.used (s : McastTbl) (i : Slot) : Option McastKey :=
  if (s.tbl i).valid then some (s.tbl i).key else none

theorem used_eq_some {s : McastTbl} {i : Slot} {k : McastKey} :
    s.used i = some k ↔ s.Holds i k := by
  simp [McastTbl.used, McastTbl.Holds]

/-- The table with another entry, counted by `mcast_entry_num`. -/
def McastTbl.put (s : McastTbl) (i : Slot) (x : McastEntry) : McastTbl :=
  ⟨update s.tbl i x, s.entryNum + x.valid.toInt - (s.tbl i).valid.toInt⟩

@[simp] theorem put_tbl_self (s : McastTbl) (i : Slot) (x : McastEntry) : (s.put i x).tbl i = x := by
  simp [McastTbl.put]

@[simp] theorem put_tbl_ne (s : McastTbl) {i j : Slot} (x : McastEntry) (h : j ≠ i) :
    (s.put i x).tbl j = s.tbl j := by
  simp [McastTbl.put, h]

/-- Keys are distinct and `mcast_entry_num` counts the valid entries. -/
structure TblOk (s : McastTbl) : Prop where
  distinct : KeysDistinct s.used
  entryNum : s.entryNum = (Finset.univ.filter fun i => (s.tbl i).valid = true).card

section

variable {hz jiffies : BitVec 32} {s : McastTbl} {k : McastKey} {eth : VlanEthhdr}

theorem mcastEntryGet_eq_some (hok : TblOk s) {i : Slot} :
    mcastEntryGet s k.vlanId k.srcMac k.dstMac = some i ↔ s.Holds i k := by
  unfold mcastEntryGet
  rw [hok.distinct.find_eq, used_eq_some]
  intro j
  rw [used_eq_some]
  obtain ⟨vlanId, srcMac, dstMac⟩ := k
  simp only [Bool.and_eq_true, beq_iff_eq, McastTbl.Holds, McastEntry.key, McastKey.mk.injEq]
  tauto

theorem mcastEntryGet_eq_none (hok : TblOk s) : mcastEntryGet s k.vlanId k.srcMac k.dstMac = none ↔
      ∀ i, ¬ s.Holds i k := by
  constructor
  · intro hnone i hk
    rw [(mcastEntryGet_eq_some hok).mpr hk] at hnone
    cases hnone
  · intro hnot
    apply Option.eq_none_iff_forall_ne_some.mpr
    intro i hsome
    exact hnot i ((mcastEntryGet_eq_some hok).mp hsome)

theorem mcastEntryIns_cases (hz jiffies : BitVec 32) (hok : TblOk s) (k : McastKey) :
    (∃ i x, s.Holds i k ∧ x.valid = true ∧ x.key = k ∧
      x.useCount = (s.tbl i).useCount + 1 ∧
      (mcastEntryIns hz jiffies s k.vlanId k.srcMac k.dstMac).1 = s.put i x) ∨
    ((∀ i, ¬ s.Holds i k) ∧
      ((mcastEntryIns hz jiffies s k.vlanId k.srcMac k.dstMac).1 = s ∨
        ∃ i x, x.valid = true ∧ x.key = k ∧ x.useCount = 1 ∧
          (mcastEntryIns hz jiffies s k.vlanId k.srcMac k.dstMac).1 = s.put i x)) := by
  unfold mcastEntryIns
  cases hget : mcastEntryGet s k.vlanId k.srcMac k.dstMac with
  | some i =>
    have hk := (mcastEntryGet_eq_some hok).mp hget
    left
    let x := s.tbl i
    refine ⟨i, { x with useCount := x.useCount + 1, ageout := jiffies + ageingTime * hz },
      hk, hk.1, hk.2, rfl, ?_⟩
    simp [McastTbl.put, x, hk.1]
  | none =>
    right
    refine ⟨(mcastEntryGet_eq_none hok).mp hget, ?_⟩
    unfold addMcastEntry
    dsimp only
    split
    · rename_i i hfree
      right
      refine ⟨i, ⟨k.srcMac, k.dstMac, k.vlanId, true, 1, jiffies + ageingTime * hz⟩,
        rfl, rfl, rfl, ?_⟩
      simp only [McastTbl.put, Bool.toInt_true]
      cases (s.tbl i).valid <;> simp
    · exact .inl rfl

theorem mcastEntryDel_cases (hok : TblOk s) (k : McastKey) : (∃ i x, s.Holds i k ∧ x.key = k ∧
      x.useCount = (s.tbl i).useCount - 1 ∧ (x.valid = true ↔ x.useCount ≠ 0) ∧
      mcastEntryDel s k.vlanId k.srcMac k.dstMac = (s.put i x, 0)) ∨
    ((∀ i, ¬ s.Holds i k) ∧
      mcastEntryDel s k.vlanId k.srcMac k.dstMac = (s, 1)) := by
  unfold mcastEntryDel
  cases hget : mcastEntryGet s k.vlanId k.srcMac k.dstMac with
  | some i =>
    have hk := (mcastEntryGet_eq_some hok).mp hget
    left
    by_cases hzero : (s.tbl i).useCount - 1#32 = 0#32
    · refine ⟨i, { s.tbl i with useCount := (s.tbl i).useCount - 1, valid := false }, hk, hk.2, rfl, ?_, ?_⟩
      · simp [hzero]
      · simp [hzero, McastTbl.put, hk.1]
    · refine ⟨i, { s.tbl i with useCount := (s.tbl i).useCount - 1 }, hk, hk.2, rfl, ?_, ?_⟩
      · simp [hzero, hk.1]
      · simp [hzero, McastTbl.put, hk.1]
  | none => exact .inr ⟨(mcastEntryGet_eq_none hok).mp hget, rfl⟩

theorem mcastTx_eq (hmc : isMulticastPkt eth.hDest = true) : (mcastTx hz jiffies s eth).1 =
    (mcastEntryIns hz jiffies s eth.key.vlanId eth.key.srcMac eth.key.dstMac).1 := by
  unfold mcastTx VlanEthhdr.key
  rw [if_pos hmc]
  split <;> rfl

theorem mcastRxChecked_eq (hmc : isMulticastPkt eth.hDest = true) :
    mcastRxChecked s eth = mcastEntryDel s eth.key.vlanId eth.key.srcMac eth.key.dstMac := by
  unfold mcastRxChecked VlanEthhdr.key
  rw [if_pos hmc]
  split <;> rfl

/-- **Early exit**: without a valid entry nothing is dropped anyway. -/
theorem mcastRx_eq (hok : TblOk s) (eth : VlanEthhdr) : mcastRx s eth = mcastRxChecked s eth := by
  unfold mcastRx
  split
  · rename_i hnum
    rw [hok.entryNum, Int.natCast_eq_zero, Finset.card_filter_eq_zero_iff] at hnum
    by_cases hmc : isMulticastPkt eth.hDest = true
    · rw [mcastRxChecked_eq hmc]
      rcases mcastEntryDel_cases hok eth.key with ⟨i, x, hk, -⟩ | ⟨-, heq⟩
      · exact absurd hk.1 (hnum i (Finset.mem_univ i))
      · exact heq.symm
    · rw [mcastRxChecked, if_neg hmc]
  · rfl

theorem mcastRx_drops_iff (hok : TblOk s) (hmc : isMulticastPkt eth.hDest = true) :
    (mcastRx s eth).2 = 0 ↔ ∃ i, s.Holds i eth.key := by
  rw [mcastRx_eq hok, mcastRxChecked_eq hmc]
  rcases mcastEntryDel_cases hok eth.key with ⟨i, x, hk, -, -, -, heq⟩ | ⟨hnot, heq⟩
  · rw [heq]
    exact iff_of_true rfl ⟨i, hk⟩
  · rw [heq]
    refine iff_of_false (by simp) ?_
    rintro ⟨i, hk⟩
    exact hnot i hk

end

theorem key_unique {k k' : McastKey} {s : McastTbl} {e : Packet} (h : Sends k e ∨ Drops k s e)
    (h' : Sends k' e ∨ Drops k' s e) : k = k' := by
  cases e with
  | tx eth jiffies => simp_all [Sends, Drops]
  | rx eth => simp_all [Sends, Drops]

/-- **One packet**: nothing changes and no valid entry counts it, or the entry of its key is
    made, counted up or counted down. -/
theorem step_cases (hz : BitVec 32) {s : McastTbl} (hok : TblOk s) (e : Packet) :
    (step hz s e = s ∧ ∀ i k, s.Holds i k → ¬ Sends k e ∧ ¬ Drops k s e) ∨
    ∃ i x, step hz s e = s.put i x ∧ (∀ j, j ≠ i → ¬ s.Holds j x.key) ∧
      ((¬ s.Holds i x.key ∧ Sends x.key e ∧ x.valid = true ∧ x.useCount = 1) ∨
       (s.Holds i x.key ∧ Sends x.key e ∧ x.valid = true ∧
          x.useCount = (s.tbl i).useCount + 1) ∨
       (s.Holds i x.key ∧ Drops x.key s e ∧ x.useCount = (s.tbl i).useCount - 1 ∧
          (x.valid = true ↔ x.useCount ≠ 0))) := by
  have hone : ∀ {i j k}, s.Holds i k → j ≠ i → ¬ s.Holds j k := fun hk hne hk' =>
    hne (hok.distinct _ _ _ (used_eq_some.mpr hk') (used_eq_some.mpr hk))
  cases e with
  | tx eth jiffies =>
    by_cases hmc : isMulticastPkt eth.hDest = true
    · have hsends : Sends eth.key (.tx eth jiffies) := ⟨hmc, rfl⟩
      have hstep : step hz s (.tx eth jiffies) = _ := mcastTx_eq hmc
      rw [hstep]
      rcases mcastEntryIns_cases hz jiffies hok eth.key with
        ⟨i, x, hk, hx, hkey, huse, heq⟩ | ⟨hnot, heq | ⟨i, x, hx, hkey, huse, heq⟩⟩
      · right
        rw [← hkey] at hk hsends
        exact ⟨i, x, heq, fun j => hone hk, .inr (.inl ⟨hk, hsends, hx, huse⟩)⟩
      · left
        refine ⟨heq, fun i k hk => ⟨?_, id⟩⟩
        rintro ⟨-, rfl⟩
        exact hnot i hk
      · right
        rw [← hkey] at hnot hsends
        exact ⟨i, x, heq, fun j _ => hnot j, .inl ⟨hnot i, hsends, hx, huse⟩⟩
    · left
      refine ⟨?_, fun i k _ => ⟨fun h => hmc h.1, id⟩⟩
      simp [step, mcastTx, hmc]
  | rx eth =>
    by_cases hmc : isMulticastPkt eth.hDest = true
    · have hrx : mcastRx s eth = _ := (mcastRx_eq hok eth).trans (mcastRxChecked_eq hmc)
      rcases mcastEntryDel_cases hok eth.key with
        ⟨i, x, hk, hkey, huse, hvalid, heq⟩ | ⟨hnot, heq⟩
      · rw [heq] at hrx
        right
        have hdrops : Drops eth.key s (.rx eth) := ⟨hmc, rfl, by rw [hrx]⟩
        rw [← hkey] at hk hdrops
        refine ⟨i, x, by simp [step, hrx], fun j => hone hk, ?_⟩
        exact .inr (.inr ⟨hk, hdrops, huse, hvalid⟩)
      · rw [heq] at hrx
        left
        refine ⟨by simp [step, hrx], fun i k hk => ⟨id, ?_⟩⟩
        rintro ⟨-, rfl, -⟩
        exact hnot i hk
    · left
      refine ⟨?_, fun i k _ => ⟨id, fun h => hmc h.1⟩⟩
      simp only [step, mcastRx, mcastRxChecked, hmc]
      split <;> rfl

/-! ## The table after a run -/

theorem tblOk_step (hz : BitVec 32) {s : McastTbl} (hok : TblOk s) (e : Packet) :
    TblOk (step hz s e) := by
  rcases step_cases hz hok e with ⟨heq, -⟩ | ⟨i, x, heq, hother, -⟩
  · rw [heq]
    exact hok
  · rw [heq]
    constructor
    · apply hok.distinct.put (i := i)
      · intro j hj
        simp [McastTbl.used, hj]
      · intro k hk j hne hused
        obtain ⟨-, rfl⟩ := used_eq_some.mp hk
        rw [put_tbl_self] at hused
        exact hother j hne (used_eq_some.mp hused)
    · have hcount := card_put (i := i) (p := fun j => (s.tbl j).valid)
        (q := fun j => ((s.put i x).tbl j).valid) (fun j hj => by simp [hj])
      rw [hcount, put_tbl_self, ← hok.entryNum]
      rfl

theorem tblOk_after (hz : BitVec 32) (es : List Packet) : TblOk (after hz es) := by
  have hinit : TblOk .init := by
    constructor
    · intro i j k h
      simp [McastTbl.used, McastTbl.init] at h
    · simp [McastTbl.init]
  exact runEvents_invariant es (fun s e h => tblOk_step hz h e) hinit

section

variable {hz : BitVec 32} {es : List Packet} {e : Packet} {i : Slot}
  {k : McastKey}

theorem after_append (es es' : List Packet) :
    after hz (es ++ es') = runEvents (step hz) (after hz es) es' :=
  runEvents_append McastTbl.init es es'

theorem after_snoc (es : List Packet) (e : Packet) :
    after hz (es ++ [e]) = step hz (after hz es) e :=
  after_append es [e]

open Classical in
theorem balance_snoc (s : McastTbl) (es : List Packet) (e : Packet) :
    balance hz k s (es ++ [e]) = balance hz k s es + ((if Sends k e then 1 else 0) -
      if Drops k (runEvents (step hz) s es) e then 1 else 0) := by
  induction es generalizing s with
  | nil =>
    rw [nil_append, balance, balance, balance, runEvents_nil]
    omega
  | cons e' es ih =>
    rw [cons_append, balance, ih, balance, runEvents_cons]
    omega

open Classical in
theorem CountedSince.snoc (h : CountedSince hz es i) (hk : ((after hz es).tbl i).key = k)
    (hkeep : (after hz (es ++ [e])).Holds i k)
    (hcount : (((after hz (es ++ [e])).tbl i).useCount.toNat : Int) =
      ((after hz es).tbl i).useCount.toNat + ((if Sends k e then 1 else 0) -
        if Drops k (after hz es) e then 1 else 0)) : CountedSince hz (es ++ [e]) i := by
  obtain ⟨before, e₀, later, hes, hsends, hnew, hsince, hbalance⟩ := h
  rw [hk] at hsends hnew hsince hbalance
  have hsplit : es ++ [e] = before ++ e₀ :: (later ++ [e]) := by
    rw [hes, append_assoc, cons_append]
  unfold CountedSince
  rw [hkeep.2]
  refine ⟨before, e₀, later ++ [e], hsplit, hsends, hnew, ?_, ?_⟩
  · intro mid hmid
    rcases prefix_concat_iff.mp hmid with rfl | hmid
    · rw [← hsplit]
      exact hkeep
    · exact hsince mid hmid
  · rw [hcount, hbalance, balance_snoc, ← after_append, append_assoc, singleton_append, ← hes]
    omega

theorem CountedSince.made (hsends : Sends k e) (hnew : ∀ j, ¬ (after hz es).Holds j k)
    (hholds : (after hz (es ++ [e])).Holds i k)
    (hone : ((after hz (es ++ [e])).tbl i).useCount = 1) : CountedSince hz (es ++ [e]) i := by
  unfold CountedSince
  rw [hholds.2]
  refine ⟨es, e, [], rfl, hsends, hnew, ?_, by rw [hone]; rfl⟩
  intro mid hmid
  rw [prefix_nil.mp hmid]
  exact hholds

/-- **One packet more**: the counters stay right unless one is full. -/
theorem counted_snoc (hfull : NotFull (after hz es) e) (h : ∀ i, ((after hz es).tbl i).valid →
      1 ≤ ((after hz es).tbl i).useCount.toNat ∧ CountedSince hz es i)
    (hvalid : ((after hz (es ++ [e])).tbl i).valid) :
    1 ≤ ((after hz (es ++ [e])).tbl i).useCount.toNat ∧ CountedSince hz (es ++ [e]) i := by
  have hok := tblOk_after hz es
  have hnext : after hz (es ++ [e]) = step hz (after hz es) e := after_snoc es e
  -- an entry that the packet does not count
  have hsame : (after hz (es ++ [e])).tbl i = (after hz es).tbl i →
      ¬ Sends ((after hz es).tbl i).key e → ¬ Drops ((after hz es).tbl i).key (after hz es) e →
      1 ≤ ((after hz (es ++ [e])).tbl i).useCount.toNat ∧ CountedSince hz (es ++ [e]) i := by
    intro htbl hs hd
    obtain ⟨hone, hcounted⟩ := h i (htbl ▸ hvalid)
    refine ⟨htbl ▸ hone, hcounted.snoc rfl ⟨hvalid, by rw [htbl]⟩ ?_⟩
    rw [htbl, if_neg hs, if_neg hd]
    omega
  rcases step_cases hz hok e with ⟨heq, hnone⟩ | ⟨j, x, heq, hother, hcases⟩
  · have htbl : (after hz (es ++ [e])).tbl i = (after hz es).tbl i := by rw [hnext, heq]
    obtain ⟨hs, hd⟩ := hnone i _ ⟨htbl ▸ hvalid, rfl⟩
    exact hsame htbl hs hd
  · by_cases hij : i = j
    · subst hij
      have htbl : (after hz (es ++ [e])).tbl i = x := by rw [hnext, heq, put_tbl_self]
      rw [htbl] at hvalid
      have hholds : (after hz (es ++ [e])).Holds i x.key := ⟨htbl ▸ hvalid, by rw [htbl]⟩
      rcases hcases with ⟨hnew, hs, -, huse⟩ | ⟨hold, hs, -, huse⟩ | ⟨hold, hd, huse, hx⟩
      · -- the packet makes the entry
        refine ⟨by rw [htbl, huse]; decide, CountedSince.made hs ?_ hholds (by rw [htbl, huse])⟩
        intro j hjk
        by_cases hji : j = i
        · exact hnew (hji ▸ hjk)
        · exact hother j hji hjk
      · obtain ⟨hone, hcounted⟩ := h i hold.1
        have hlt : ((after hz es).tbl i).useCount.toNat + 1 < 2 ^ 32 := by
          have hne := hfull i x.key hold hs
          rw [← BitVec.toNat_ne_iff_ne, BitVec.toNat_allOnes] at hne
          omega
        have hadd : x.useCount.toNat = ((after hz es).tbl i).useCount.toNat + 1 := by
          rw [huse, BitVec.toNat_add]
          exact Nat.mod_eq_of_lt hlt
        have hd : ¬ Drops x.key (after hz es) e := by
          cases e with
          | tx eth jiffies => exact id
          | rx eth => exact hs.elim
        refine ⟨by rw [htbl, hadd]; omega, hcounted.snoc hold.2 hholds ?_⟩
        rw [htbl, hadd, if_pos hs, if_neg hd]
        omega
      · obtain ⟨hone, hcounted⟩ := h i hold.1
        have hsub : x.useCount.toNat = ((after hz es).tbl i).useCount.toNat - 1 := by
          have hle : (1 : BitVec 32) ≤ ((after hz es).tbl i).useCount := BitVec.le_def.mpr hone
          rw [huse, BitVec.toNat_sub_of_le hle]
          rfl
        have hpos : x.useCount.toNat ≠ 0 := by
          have hne := BitVec.toNat_ne_iff_ne.mpr (hx.mp hvalid)
          exact hne
        have hs : ¬ Sends x.key e := by
          cases e with
          | tx eth jiffies => exact hd.elim
          | rx eth => exact id
        refine ⟨by rw [htbl]; omega, hcounted.snoc hold.2 hholds ?_⟩
        rw [htbl, hsub, if_neg hs, if_pos hd]
        omega
    · have htbl : (after hz (es ++ [e])).tbl i = (after hz es).tbl i := by
        rw [hnext, heq, put_tbl_ne _ _ hij]
      -- another entry has another key
      have hkey : ((after hz es).tbl i).key ≠ x.key := fun hk =>
        hother i hij ⟨htbl ▸ hvalid, hk⟩
      have hx : Sends x.key e ∨ Drops x.key (after hz es) e := by
        rcases hcases with ⟨-, hs, -⟩ | ⟨-, hs, -⟩ | ⟨-, hd, -⟩
        · exact .inl hs
        · exact .inl hs
        · exact .inr hd
      apply hsame htbl
      · intro hs
        exact hkey (key_unique (.inl hs) hx)
      · intro hd
        exact hkey (key_unique (.inr hd) hx)

theorem not_filterOk_of_full (hfull : ¬ NotFull (after hz es) e) : ¬ FilterOk hz (es ++ [e]) := by
  intro hok
  obtain ⟨i, k, hk, hs, hones⟩ : ∃ i k, (after hz es).Holds i k ∧ Sends k e ∧ ((after hz es).tbl i).useCount = BitVec.allOnes 32 := by
    simpa [NotFull] using hfull
  have hd : ¬ Drops k (after hz es) e := by
    cases e with
    | tx eth jiffies => exact id
    | rx eth => exact hs.elim
  rcases step_cases hz (tblOk_after hz es) e with ⟨-, hnone⟩ | ⟨j, x, heq, hother, hcases⟩
  · exact (hnone i k hk).1 hs
  · have hx : Sends x.key e ∨ Drops x.key (after hz es) e := by
      rcases hcases with ⟨-, hs, -⟩ | ⟨-, hs, -⟩ | ⟨-, hd, -⟩
      · exact .inl hs
      · exact .inl hs
      · exact .inr hd
    obtain rfl : k = x.key := key_unique (.inl hs) hx
    obtain rfl : i = j := by_contra fun hij => hother i hij hk
    rcases hcases with ⟨hnew, -⟩ | ⟨-, -, hvalid, huse⟩ | ⟨-, hd', -⟩
    · exact hnew hk
    · have htbl : (after hz (es ++ [e])).tbl i = x := by rw [after_snoc, heq, put_tbl_self]
      have hone := (hok.counted i (by rw [htbl]; exact hvalid)).1
      rw [htbl, huse, hones] at hone
      exact absurd hone (by decide)
    · exact hd hd'

end

theorem filterOk_of_counted {hz : BitVec 32} {es : List Packet}
    (h : ∀ i, ((after hz es).tbl i).valid →
      1 ≤ ((after hz es).tbl i).useCount.toNat ∧ CountedSince hz es i) : FilterOk hz es where
  entryNum := (tblOk_after hz es).entryNum
  distinct i j k hik hjk :=
    (tblOk_after hz es).distinct i j k (used_eq_some.mpr hik) (used_eq_some.mpr hjk)
  counted := h
  drops _ hmc := mcastRx_drops_iff (tblOk_after hz es) hmc
  earlyExit := mcastRx_eq (tblOk_after hz es)

/-- **Echo filter**: the table is right after every packet of a run exactly when no multicast
    packet is sent while the counter of its entry is full. -/
theorem filterOk_iff (hz : BitVec 32) (es : List Packet) :
    (∀ sofar, sofar <+: es → FilterOk hz sofar) ↔ Along (step hz) NotFull .init es := by
  induction es using List.reverseRecOn with
  | nil =>
    refine iff_of_true ?_ trivial
    intro sofar hsofar
    rw [List.prefix_nil.mp hsofar]
    apply filterOk_of_counted
    intro i hvalid
    simp [after, McastTbl.init] at hvalid
  | append_singleton es e ih =>
    rw [along_append, ← ih, along_cons]
    constructor
    · intro h
      refine ⟨fun sofar hs => h sofar (hs.trans (List.prefix_append _ _)), ?_, trivial⟩
      by_contra hfull
      exact not_filterOk_of_full hfull (h _ List.prefix_rfl)
    · rintro ⟨h, hfull, -⟩ sofar hsofar
      rcases List.prefix_concat_iff.mp hsofar with rfl | hsofar
      · apply filterOk_of_counted
        intro i hvalid
        exact counted_snoc hfull (h es List.prefix_rfl).counted hvalid
      · exact h sofar hsofar

/-! ## A counter that overflows -/

/-- A packet to a multicast group. -/
def groupFrame : VlanEthhdr :=
  ⟨fun i => if i = 0 then 0x01 else if i = 2 then 0x5E else 0, fun _ => 2, 0x0800, 0⟩

theorem after_sends (hz : BitVec 32) (n : Nat) :
    ((after hz (replicate (n + 1) (.tx groupFrame 0))).tbl 0).key = groupFrame.key ∧
    ((after hz (replicate (n + 1) (.tx groupFrame 0))).tbl 0).valid = true ∧
    ((after hz (replicate (n + 1) (.tx groupFrame 0))).tbl 0).useCount =
      BitVec.ofNat 32 (n + 1) := by
  induction n with
  | zero => exact ⟨rfl, rfl, rfl⟩
  | succ n ih =>
    obtain ⟨hkey, hvalid, huse⟩ := ih
    rw [replicate_succ', after_snoc]
    generalize hs : after hz (replicate (n + 1) (.tx groupFrame 0)) = s at *
    have hget : mcastEntryGet s groupFrame.key.vlanId groupFrame.key.srcMac groupFrame.key.dstMac =
        some 0 :=
      (mcastEntryGet_eq_some (hs ▸ tblOk_after hz _)).mpr ⟨hvalid, hkey⟩
    have hstep : step hz s (.tx groupFrame 0) = _ := mcastTx_eq (by decide)
    rw [hstep, mcastEntryIns, hget]
    refine ⟨by simpa [McastEntry.key] using hkey, by simpa using hvalid, ?_⟩
    simp [huse, BitVec.ofNat_add]

/-- Four billion sends without an echo: a valid entry has the count 0. -/
theorem not_filterOk_overflow : ¬ FilterOk 250 (List.replicate (2 ^ 32) (.tx groupFrame 0)) := by
  intro hok
  have hn : 2 ^ 32 = 2 ^ 32 - 1 + 1 := by omega
  rw [hn] at hok
  obtain ⟨-, hvalid, huse⟩ := after_sends 250 (2 ^ 32 - 1)
  have hone := (hok.counted 0 hvalid).1
  rw [huse, BitVec.toNat_ofNat] at hone
  omega

end RalinkSdk.Raeth
