import RalinkSdk.Mat.AgingTable
import RalinkSdk.Mat.LatestMapping

/-!
# The latest client of a PPPoE session

An access concentrator numbers its sessions, and the driver keeps which of the stations behind it
has which one: a lookup for a concentrator and a session is to return the station with which they
were last updated.  `SesHistory` keeps these updates beside a table.

Entries are updated by all three fields and looked up by two.  An update of a station whose entry
lies behind that of another one only stamps it, so that lookups go on to find the other one.

## Source

`common/cmm_mat_pppoe.c`.
-/

namespace RalinkSdk.Mat

open IgmpSnoop (MacAddr)
open Lib Function
open scoped IgmpSnoop

/-! ## The table -/

structure SesMacMappingEntry where
  sessionID : BitVec 16
  outMacAddr : MacAddr
  inMacAddr : MacAddr
  deriving DecidableEq

abbrev SesMacTable := AgingTable SesMacMappingEntry

def pppoeSesEntryAgeoutTime : BitVec 32 := 3000

/-- A session of an access concentrator: `sesID` and `outMac`. -/
abbrev PppoeSession := BitVec 16 × MacAddr

/-- `sesID % MAT_MAX_HASH_ENTRY_SUPPORT` -/
def sesHashIdx (sesID : BitVec 16) : HashIdx := Fin.ofNat matMaxHashEntrySupport sesID.toNat

def SesMacMappingEntry.session (x : SesMacMappingEntry) : PppoeSession := (x.sessionID, x.outMacAddr)

/-- What `SesMacTableUpdate` does with the entries of a chain. -/
def sesMacUpdate (inMacAddr : MacAddr) (sesID : BitVec 16) (outMacAddr : MacAddr) :
    AgingUpdate SesMacMappingEntry where
  ageout := pppoeSesEntryAgeoutTime
  isEntry x := x.sessionID == sesID && x.inMacAddr == inMacAddr && x.outMacAddr == outMacAddr
  -- only `lastTime` is written
  refresh x := x
  new := ⟨sesID, outMacAddr, inMacAddr⟩

/-- `SesMacTableUpdate`, and the entries that it frees. -/
def sesMacTableUpdate (t : SesMacTable) (inMacAddr : MacAddr) (sesID : BitVec 16)
    (outMacAddr : MacAddr) (now : Readings) (alloc : Bool) :
    SesMacTable × Bool × List (AgingEntry SesMacMappingEntry) :=
  let out := t.update (sesHashIdx sesID) (sesMacUpdate inMacAddr sesID outMacAddr) now alloc
  (out.1, out.2.1.isSome, out.2.2)

def getInMacByOutMacFromSesMacTb (t : SesMacTable) (outMac : MacAddr) (sesID : BitVec 16)
    (now : BitVec 32) : SesMacTable × Option MacAddr :=
  let out := t.lookUp (sesHashIdx sesID)
    (fun x => x.sessionID == sesID && x.outMacAddr == outMac) now
  (out.1, out.2.map (·.inMacAddr))

/-! ## Calls -/

/-- A call of the update or of the lookup. -/
inductive SesCall where
  | update (inMacAddr : MacAddr) (sesID : BitVec 16) (outMacAddr : MacAddr) (now : Readings)
      (alloc : Bool)
  | lookUp (outMac : MacAddr) (sesID : BitVec 16) (now : BitVec 32)

/-- A table, the station with which each session was last updated, and the sessions of which this
    entry was freed since. -/
structure SesHistory where
  table : SesMacTable
  last : PppoeSession → Option MacAddr
  agedOut : PppoeSession → Bool

namespace SesHistory

def step (s : SesHistory) : SesCall → SesHistory
  | .update inMacAddr sesID outMacAddr now alloc =>
    let out := sesMacTableUpdate s.table inMacAddr sesID outMacAddr now alloc
    { table := out.1
      last := update s.last (sesID, outMacAddr) (some inMacAddr)
      agedOut := fun p => p != (sesID, outMacAddr) && (s.agedOut p ||
        out.2.2.any fun x => x.entry.session == p && s.last p == some x.entry.inMacAddr) }
  | .lookUp outMac sesID now =>
    { s with table := (getInMacByOutMacFromSesMacTb s.table outMac sesID now).1 }

/-- A table that has just been initialized. -/
def init : SesHistory := ⟨agingTableInit, fun _ => none, fun _ => false⟩

/-- **The latest stations**: a lookup returns the station of the latest update of the session, or
    nothing, where there was none or its entry has aged out. -/
def Latest (s : SesHistory) : Prop :=
  ∀ outMac sesID now,
    match (getInMacByOutMacFromSesMacTb s.table outMac sesID now).2 with
    | some inMac => s.last (sesID, outMac) = some inMac
    | none => s.last (sesID, outMac) = none ∨ s.agedOut (sesID, outMac) = true

/-- After the call the stations are the latest. -/
def KeepsLatest (s : SesHistory) (c : SesCall) : Prop := (s.step c).Latest

/-- The first entry of a session among those of a chain. -/
def firstOf (p : PppoeSession) (l : List SesMacMappingEntry) : Option MacAddr :=
  (l.find? fun x => x.session == p).map (·.inMacAddr)

/-- An update must either put in a new entry, or the first entry of its session that it does not
    free must be of its station.  Of no other session may it free the first entry and let one of
    another station stay. -/
def Ready (s : SesHistory) : SesCall → Prop
  | .update inMacAddr sesID outMacAddr now alloc =>
    let u := sesMacUpdate inMacAddr sesID outMacAddr
    let chain := s.table.hash (sesHashIdx sesID)
    let stay := staying (chainFates u now.walk chain)
    ((∃ x ∈ looked u now.walk chain, u.isEntry x.entry = true) ∨ alloc = false →
      firstOf (sesID, outMacAddr) stay = some inMacAddr) ∧
    ∀ p, p ≠ (sesID, outMacAddr) → ∀ inMac, firstOf p stay = some inMac →
      sesHashIdx p.1 = sesHashIdx sesID → firstOf p (chain.map (·.entry)) = some inMac
  | .lookUp .. => True

/-! ## Lookups -/

variable {s : SesHistory} {p : PppoeSession} {inMac : MacAddr} {l : List SesMacMappingEntry}

/-- The station that a lookup returns. -/
def returned (t : SesMacTable) (p : PppoeSession) : Option MacAddr :=
  firstOf p (t.entries (sesHashIdx p.1))

theorem getInMac_spec {t : SesMacTable} (hvalid : t.valid = true) (outMac : MacAddr)
    (sesID : BitVec 16) (now : BitVec 32) :
    (getInMacByOutMacFromSesMacTb t outMac sesID now).1.valid = true ∧
      (∀ p, returned (getInMacByOutMacFromSesMacTb t outMac sesID now).1 p = returned t p) ∧
      (getInMacByOutMacFromSesMacTb t outMac sesID now).2 = returned t (sesID, outMac) := by
  obtain ⟨hvalid', hsame, hfound⟩ := AgingTable.lookUp_spec hvalid (sesHashIdx sesID)
    (fun x => x.sessionID == sesID && x.outMacAddr == outMac) now
  refine ⟨hvalid', fun p => ?_, ?_⟩
  · exact congrArg (firstOf p) (hsame _)
  · unfold getInMacByOutMacFromSesMacTb
    dsimp only
    rw [hfound]
    rfl

def InOrder (s : SesHistory) (p : PppoeSession) : Prop :=
  match returned s.table p with
  | some inMac => s.last p = some inMac
  | none => s.last p = none ∨ s.agedOut p = true

theorem latest_iff (hvalid : s.table.valid = true) : s.Latest ↔ ∀ p, s.InOrder p := by
  constructor
  · intro hlatest p
    have hp := hlatest p.2 p.1 0
    rwa [(getInMac_spec hvalid p.2 p.1 0).2.2] at hp
  · intro horder outMac sesID now
    rw [(getInMac_spec hvalid outMac sesID now).2.2]
    exact horder (sesID, outMac)

theorem exists_of_firstOf (h : firstOf p l = some inMac) :
    ∃ x ∈ l, x.session = p ∧ x.inMacAddr = inMac := by
  obtain ⟨x, hx, hmac⟩ := Option.map_eq_some_iff.mp h
  exact ⟨x, List.mem_of_find?_eq_some hx, by simpa using List.find?_some hx, hmac⟩

theorem firstOf_eq_none : firstOf p l = none ↔ ∀ x ∈ l, x.session ≠ p := by
  simp [firstOf]

theorem firstOf_cons_self {x : SesMacMappingEntry} (h : x.session = p) :
    firstOf p (x :: l) = some x.inMacAddr := by
  simp [firstOf, h]

theorem firstOf_cons_of_ne {x : SesMacMappingEntry} (h : x.session ≠ p) :
    firstOf p (x :: l) = firstOf p l := by
  simp [firstOf, h]

/-! ## Updates -/

theorem inOrder_iff_of_last (hlast : s.last p = some inMac) (hkept : s.agedOut p = false) :
    s.InOrder p ↔ returned s.table p = some inMac := by
  unfold InOrder
  rw [hlast, hkept]
  cases returned s.table p with
  | none => simp
  | some mac => simp [eq_comm]

section

variable (hvalid : s.table.valid = true) (inMacAddr : MacAddr) (sesID : BitVec 16)
  (outMacAddr : MacAddr) (now : Readings) (alloc : Bool)

include hvalid

theorem update_table :
    AgingTable.UpdateSpec s.table (sesHashIdx sesID) (sesMacUpdate inMacAddr sesID outMacAddr) now
      alloc (s.table.update (sesHashIdx sesID) (sesMacUpdate inMacAddr sesID outMacAddr) now
        alloc) :=
  AgingTable.update_spec hvalid (fun _ _ => rfl) _ now alloc

theorem update_inOrder_self :
    (s.step (.update inMacAddr sesID outMacAddr now alloc)).InOrder (sesID, outMacAddr) ↔
      ((∃ x ∈ looked (sesMacUpdate inMacAddr sesID outMacAddr) now.walk
          (s.table.hash (sesHashIdx sesID)),
        (sesMacUpdate inMacAddr sesID outMacAddr).isEntry x.entry = true) ∨ alloc = false →
      firstOf (sesID, outMacAddr) (staying (chainFates (sesMacUpdate inMacAddr sesID outMacAddr)
        now.walk (s.table.hash (sesHashIdx sesID)))) = some inMacAddr) := by
  have hspec := update_table hvalid inMacAddr sesID outMacAddr now alloc
  have hentries := hspec.entries
  set u := sesMacUpdate inMacAddr sesID outMacAddr with hu
  set fs := chainFates u now.walk (s.table.hash (sesHashIdx sesID)) with hfs
  have hnew : u.new.session = (sesID, outMacAddr) := rfl
  have hlast : (s.step (.update inMacAddr sesID outMacAddr now alloc)).last (sesID, outMacAddr) =
      some inMacAddr := update_self ..
  rw [inOrder_iff_of_last hlast (by simp [step]), returned]
  simp only [step, sesMacTableUpdate]
  rw [hentries]
  have hany : (looked u now.walk (s.table.hash (sesHashIdx sesID))).any
      (fun x => u.isEntry x.entry) = true ↔
        ∃ x ∈ looked u now.walk (s.table.hash (sesHashIdx sesID)), u.isEntry x.entry = true := by
    rw [List.any_eq_true]
  rw [← hany]
  cases hmet : (looked u now.walk (s.table.hash (sesHashIdx sesID))).any
      (fun x => u.isEntry x.entry) with
  | true => simp
  | false =>
    cases alloc with
    | true =>
      -- a new entry stands in front
      simp only [Bool.not_false, Bool.and_self, if_true, List.cons_append, List.nil_append]
      rw [firstOf_cons_self hnew]
      simp [hu, sesMacUpdate]
    | false => simp

theorem update_inOrder_of_ne (horder : ∀ p, s.InOrder p) (hp : p ≠ (sesID, outMacAddr)) :
    (s.step (.update inMacAddr sesID outMacAddr now alloc)).InOrder p ↔
      ∀ inMac, firstOf p (staying (chainFates (sesMacUpdate inMacAddr sesID outMacAddr) now.walk
          (s.table.hash (sesHashIdx sesID)))) = some inMac →
        sesHashIdx p.1 = sesHashIdx sesID →
          firstOf p ((s.table.hash (sesHashIdx sesID)).map (·.entry)) = some inMac := by
  have hspec := update_table hvalid inMacAddr sesID outMacAddr now alloc
  have hentries := hspec.entries
  have hother := hspec.other
  have hfreed := hspec.freed
  have hbefore := horder p
  set u := sesMacUpdate inMacAddr sesID outMacAddr with hu
  set chain := s.table.hash (sesHashIdx sesID) with hchain
  set fs := chainFates u now.walk chain with hfs
  have hfst : fs.map Prod.fst = chain := chainFates_fst u now.walk chain
  have hnew : u.new.session ≠ p := fun h => hp h.symm
  have hlast : (s.step (.update inMacAddr sesID outMacAddr now alloc)).last p = s.last p :=
    update_of_ne hp ..
  have haged : (s.step (.update inMacAddr sesID outMacAddr now alloc)).agedOut p =
      (s.agedOut p || (goners fs).any fun x =>
        x.entry.session == p && s.last p == some x.entry.inMacAddr) := by
    simp only [step, sesMacTableUpdate]
    rw [hfreed]
    simp [hp]
  unfold InOrder at hbefore ⊢
  rw [hlast, haged]
  by_cases hk : sesHashIdx p.1 = sesHashIdx sesID
  · have hafter : returned (s.step (.update inMacAddr sesID outMacAddr now alloc)).table p =
        firstOf p (staying fs) := by
      simp only [returned, step, sesMacTableUpdate]
      rw [hk, hentries]
      split
      · exact firstOf_cons_of_ne hnew
      · rfl
    have hreturned : returned s.table p = firstOf p (chain.map (·.entry)) := by
      rw [returned, hk, AgingTable.entries]
    rw [hafter]
    rw [hreturned] at hbefore
    cases hstay : firstOf p (staying fs) with
    | none =>
      refine iff_of_true ?_ fun inMac hmac => by cases hmac
      cases hfirst : firstOf p (chain.map (·.entry)) with
      | none =>
        rw [hfirst] at hbefore
        exact hbefore.imp_right fun h => by rw [h, Bool.true_or]
      | some inMac =>
        -- the first entry has been freed
        rw [hfirst] at hbefore
        obtain ⟨e, he, hsession, rfl⟩ := exists_of_firstOf hfirst
        obtain ⟨x, hx, rfl⟩ := List.mem_map.mp he
        have hgone : x ∈ goners fs := mem_goners_of_not_staying (hfst.symm ▸ hx) fun hin =>
          firstOf_eq_none.mp hstay _ hin hsession
        refine .inr ?_
        rw [Bool.or_eq_true, List.any_eq_true]
        exact .inr ⟨x, hgone, by simp [hsession, hbefore]⟩
    | some inMac =>
      -- some entry of the session was first before
      obtain ⟨e, he, hsession, -⟩ := exists_of_firstOf hstay
      have hmem : e ∈ chain.map (·.entry) := hfst ▸ mem_of_mem_staying he
      cases hfirst : firstOf p (chain.map (·.entry)) with
      | none => exact absurd hsession (firstOf_eq_none.mp hfirst e hmem)
      | some mac =>
        rw [hfirst] at hbefore
        dsimp only at hbefore ⊢
        rw [hbefore]
        constructor
        · intro hmac mac' hmac' _
          rw [← hmac', ← hmac]
        · intro hmac
          exact hmac inMac rfl hk
  · -- its chain is another one
    have hafter : returned (s.step (.update inMacAddr sesID outMacAddr now alloc)).table p =
        returned s.table p := congrArg (firstOf p) (hother _ hk)
    rw [hafter]
    refine iff_of_true ?_ fun _ _ h => absurd h hk
    cases hfirst : returned s.table p with
    | none =>
      rw [hfirst] at hbefore
      exact hbefore.imp_right fun h => by rw [h, Bool.true_or]
    | some inMac =>
      rw [hfirst] at hbefore
      exact hbefore

end

/-- **A call** keeps the latest stations exactly if it is ready for it. -/
theorem keepsLatest_iff (hvalid : s.table.valid = true) (hlatest : s.Latest) (c : SesCall) :
    (s.step c).table.valid = true ∧ (s.KeepsLatest c ↔ s.Ready c) := by
  have horder := (latest_iff hvalid).mp hlatest
  cases c with
  | update inMacAddr sesID outMacAddr now alloc =>
    have hvalid' : (s.step (.update inMacAddr sesID outMacAddr now alloc)).table.valid = true :=
      (update_table hvalid inMacAddr sesID outMacAddr now alloc).valid
    have hself := update_inOrder_self hvalid inMacAddr sesID outMacAddr now alloc
    refine ⟨hvalid', ?_⟩
    rw [KeepsLatest, latest_iff hvalid']
    constructor
    · intro hnext
      refine ⟨hself.mp (hnext _), fun p hp => ?_⟩
      exact (update_inOrder_of_ne hvalid inMacAddr sesID outMacAddr now alloc horder hp).mp (hnext p)
    · rintro ⟨hfront, hrest⟩ p
      by_cases hp : p = (sesID, outMacAddr)
      · rw [hp]
        exact hself.mpr hfront
      · exact (update_inOrder_of_ne hvalid inMacAddr sesID outMacAddr now alloc horder hp).mpr
          (hrest p hp)
  | lookUp outMac sesID now =>
    obtain ⟨hvalid', hsame, -⟩ := getInMac_spec hvalid outMac sesID now
    refine ⟨hvalid', iff_of_true ?_ trivial⟩
    rw [KeepsLatest, latest_iff hvalid']
    intro p
    have hp := horder p
    rw [InOrder, ← hsame p] at hp
    exact hp

theorem init_latest : init.Latest := by
  rw [latest_iff rfl]
  exact fun p => .inl rfl

end SesHistory

/-- **Latest stations**: the runs of calls after each of which the lookups return the stations of
    the latest updates are those in which every update is ready. -/
theorem sesLatest_iff_ready (calls : List SesCall) :
    Along SesHistory.step SesHistory.KeepsLatest SesHistory.init calls ↔
      Along SesHistory.step SesHistory.Ready SesHistory.init calls := by
  let Inv : SesHistory → Prop := fun s => s.table.valid = true ∧ s.Latest
  have hstep : ∀ s c, Inv s → s.Ready c → Inv (s.step c) := by
    rintro s c ⟨hvalid, hlatest⟩ hready
    obtain ⟨hvalid', hiff⟩ := SesHistory.keepsLatest_iff hvalid hlatest c
    exact ⟨hvalid', hiff.mpr hready⟩
  apply along_iff_of_invariant calls hstep
  · rintro s c ⟨hvalid, hlatest⟩
    exact (SesHistory.keepsLatest_iff hvalid hlatest c).2
  · exact ⟨rfl, SesHistory.init_latest⟩

/-- Session 1 of one access concentrator has gone from station 1 to station 2. -/
def reconnects : List SesCall :=
  [.update (station 1) 1 (station 9) (.at 0) true, .update (station 2) 1 (station 9) (.at 10) true]

/-- An update for station 1 only stamps its entry, so that a lookup finds station 2. -/
theorem not_sesLatest_reconnect : ¬ Along SesHistory.step SesHistory.KeepsLatest SesHistory.init
      (reconnects ++ [.update (station 1) 1 (station 9) (.at 20) true]) := by
  intro hrun
  have hlast := hrun.last (station 9) 1 30
  have hreturned : (getInMacByOutMacFromSesMacTb
      ((runEvents SesHistory.step SesHistory.init reconnects).step
        (.update (station 1) 1 (station 9) (.at 20) true)).table (station 9) 1 30).2 =
      some (station 2) := by decide
  have hupdated : ((runEvents SesHistory.step SesHistory.init reconnects).step
      (.update (station 1) 1 (station 9) (.at 20) true)).last (1, station 9) =
      some (station 1) := by decide
  rw [hreturned] at hlast
  dsimp only at hlast
  rw [hupdated] at hlast
  exact absurd hlast (by decide)

end RalinkSdk.Mat
