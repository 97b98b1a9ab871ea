import RalinkSdk.Wpa.Reinstall

/-!
# Master keys of 802.1X stations

The master key of a station is delivered by the 802.1X daemon, or taken from the PMKID cache when
the station associates.  The driver keeps one key for each BSS, not for each station: a delivery for
another station of the BSS overwrites it, and messages 2 and 4 use whatever is there then.
-/

namespace RalinkSdk.Wpa

open Lib Crypt List Function

/-! ## Who was given which key -/

/-- The key last delivered for each station, and the station whose key the BSS has. -/
structure KeyLedger where
  delivered : MacAddr → Option (List Byte)
  owner : Nat → Option MacAddr

namespace KeyLedger

/-- A key comes for a station.  It is the key of the BSS `apidx`, if there is one; the key that a
    BSS has of the station is no longer its last one. -/
def deliver (l : KeyLedger) (apidx : Option Nat) (a : MacAddr) (pmk : List Byte) : KeyLedger where
  delivered := update l.delivered a (some pmk)
  owner := fun i => if apidx = some i then some a else if l.owner i = some a then none else l.owner i

/-- The key of a BSS is loaded for a station. -/
def observe (l : KeyLedger) (a : MacAddr) (effects : List Effect) : KeyLedger :=
  effects.foldl (fun l x =>
    match x with
    | .loaded apidx _ => { l with owner := update l.owner apidx (some a) }
    | _ => l) l

/-- The ledger after an event. -/
def after (l : KeyLedger) (ad : Adapter) (o : Outcome) : Event → KeyLedger
  | .eapolKey f _ => l.observe f.addr2 (o.2 f.addr2)
  | .eapolStart a _ | .eapSuccess a _ | .retry a _ _ | .eapRequest a => l.observe a (o.2 a)
  | .addWPAKey apidx a keyMaterial =>
    if keyTaken ad apidx a keyMaterial then l.deliver (some apidx) a (keyMaterial.take 32) else l
  | .assocPmkid a pmkid =>
    match ad.macTab.entry a with
    | none => l
    | some e =>
      match if e.authMode = .wpa2 then pmkidMatch (ad.mbss e.apidx) e pmkid else none with
      | none => l
      | some i => l.deliver none a ((ad.mbss e.apidx).pmkidCache i).pmk

end KeyLedger

/-- The stations that the 802.1X daemon authenticates. -/
def Enterprise (e : Entry) : Prop := e.kind = .client ∧ (e.authMode = .wpa ∨ e.authMode = .wpa2)

/-- A PTK is derived, or a cache entry written, for the station `a` with its own key. -/
def EffectOwn (l : KeyLedger) (a : MacAddr) : Effect → Prop
  | .derived pmk _ _ => l.delivered a = some pmk
  | .cached b pmk => b = a ∧ l.delivered a = some pmk
  | _ => True

/-- All that an event does for 802.1X stations is done with their own keys. -/
def AllOwn (l : KeyLedger) (ad : Adapter) (o : Outcome) : Prop :=
  ∀ a e, ad.macTab.entry a = some e → Enterprise e → ∀ x ∈ o.2 a, EffectOwn l a x

/-! ## The condition -/

variable (c : Crypto)

/-- If the start of a handshake loads a cached key, its slot still holds the key delivered for the
    station. -/
def LoadsOwn (l : KeyLedger) (ad : Adapter) (e : Entry) (env : Env) : Prop :=
  ¬ StartRefused (ad.bssOf e) e → (ad.mbss e.apidx).wscEntry ≠ some e.addr →
    env.mpool e.addr = true → e.authMode = .wpa2 → ∀ i, e.pmkidCacheIdx = some i →
      l.delivered e.addr = some ((ad.mbss e.apidx).pmkidCache i).pmk

/-- A frame comes when the key of the BSS is the station's own. -/
def ActionOwn (l : KeyLedger) (ad : Adapter) (e : Entry) (f : Elem) (env : Env) :
    Option Action → Prop
  | some .pairMsg2 =>
    Enterprise e → ¬ Msg2Dropped (ad.bssOf e) e f → l.owner e.apidx = some e.addr
  | some .pairMsg4 =>
    e.authMode = .wpa2 → Msg4Accepted c (ad.bssOf e) e f env → l.owner e.apidx = some e.addr
  | some .pairwiseKeyRequest => LoadsOwn l ad (clearedEntry e) env
  | _ => True

/-- An event finds the key of the BSS, and the cached key, to be the station's own. -/
def FindsOwn (l : KeyLedger) (ad : Adapter) : Event → Prop
  | .eapolKey f env => ∀ e, ad.macTab.entry f.addr2 = some e → admitted e f = true →
      ActionOwn c l ad e f env (actionOf f.packet)
  | .eapolStart a env => ∀ e, ad.macTab.entry a = some e → eapolStartOk e = true →
      LoadsOwn l ad { e with acceptAll := false, wpaState := .initPsk, rCounter := 0 } env
  | .eapSuccess a env => ∀ e, ad.macTab.entry a = some e → e.authMode.isWpa ∧ e.assoc →
      LoadsOwn l ad { e with wpaState := .initPmk } env
  | .retry a group env => ∀ e, ad.macTab.entry a = some e → group = false → LoadsOwn l ad e env
  | .eapRequest _ | .addWPAKey _ _ _ | .assocPmkid _ _ => True

/-! ## One step -/

/-- The master keys of the BSSs. -/
def Adapter.pmk (ad : Adapter) (i : Nat) : List Byte := (ad.mbss i).pmk

/-- The key of a BSS is the last one of the station that owns it. -/
def LedgerInv (l : KeyLedger) (pmk : Nat → List Byte) : Prop :=
  ∀ i a, l.owner i = some a → l.delivered a = some (pmk i)

/-- An event for the address `a` keeps the invariant and uses the stations' own keys. -/
def SoundFor (l : KeyLedger) (ad : Adapter) (a : MacAddr) (o : Outcome) : Prop :=
  LedgerInv (l.observe a (o.2 a)) o.1.pmk ∧ AllOwn l ad o

def NoLoad (x : Effect) : Prop := ∀ apidx pmk, x ≠ .loaded apidx pmk

section

variable {c} {l : KeyLedger} {ad : Adapter} {a : MacAddr} {e : Entry} {env : Env}

variable {effects : List Effect}

theorem KeyLedger.observe_noLoad (h : ∀ x ∈ effects, NoLoad x) : l.observe a effects = l := by
  induction effects with
  | nil => rfl
  | cons x effects ih =>
    have hx : l.observe a (x :: effects) = l.observe a effects := by
      cases x with
      | loaded apidx pmk => exact absurd rfl (h _ mem_cons_self apidx pmk)
      | sent p => rfl
      | derived pmk aNonce sNonce => rfl
      | installed key => rfl
      | cached b pmk => rfl
      | overflow => rfl
    rw [hx, ih fun y hy => h y (mem_cons_of_mem x hy)]

theorem Adapter.pmk_putBss (ad : Adapter) (m : Mbss) (e' : Entry) (effects : List Effect) :
    (ad.putBss m e' effects).1.pmk = update ad.pmk e'.apidx m.pmk := by
  funext i
  simp only [Adapter.pmk, Adapter.putBss, Adapter.put]
  rcases eq_or_ne i e'.apidx with rfl | hi
  · rw [update_self, update_self]
  · rw [update_of_ne hi, update_of_ne hi, Adapter.pmk]

theorem SoundFor.quiet {ad' : Adapter} (h : LedgerInv l ad.pmk) (hpmk : ad'.pmk = ad.pmk) :
    SoundFor l ad a ad'.quiet := by
  refine ⟨?_, fun _ _ _ _ _ hx => absurd hx not_mem_nil⟩
  change LedgerInv l ad'.pmk
  rwa [hpmk]

variable {e' : Entry}

theorem SoundFor.putBss {m : Mbss} (he : ad.macTab.entry a = some e) (haddr : e'.addr = a)
    (hinv : LedgerInv (l.observe a effects) (update ad.pmk e'.apidx m.pmk))
    (hown : Enterprise e → ∀ x ∈ effects, EffectOwn l a x) :
    SoundFor l ad a (ad.putBss m e' effects) := by
  subst haddr
  constructor
  · rw [Adapter.pmk_putBss]
    simpa [Adapter.putBss, Adapter.put] using hinv
  · intro b x hx hent y hy
    simp only [Adapter.putBss, Adapter.put] at hy
    split_ifs at hy with hb
    · subst hb
      obtain rfl : e = x := Option.some.inj (he.symm.trans hx)
      exact hown hent y hy
    · exact absurd hy not_mem_nil

section

variable (h : LedgerInv l ad.pmk) (he : ad.macTab.entry a = some e) (haddr : e'.addr = a)

include h he haddr

theorem SoundFor.putBss_same {m : Mbss} (hpmk : m.pmk = ad.pmk e'.apidx)
    (hload : ∀ x ∈ effects, NoLoad x) (hown : Enterprise e → ∀ x ∈ effects, EffectOwn l a x) :
    SoundFor l ad a (ad.putBss m e' effects) := by
  refine .putBss he haddr ?_ hown
  rwa [KeyLedger.observe_noLoad hload, hpmk, update_eq_self]

theorem SoundFor.put (hload : ∀ x ∈ effects, NoLoad x)
    (hown : Enterprise e → ∀ x ∈ effects, EffectOwn l a x) :
    SoundFor l ad a (ad.put e' effects) := by
  have hput := SoundFor.putBss_same (m := ad.mbss e'.apidx) h he haddr rfl hload hown
  rwa [Adapter.putBss, update_eq_self] at hput

theorem SoundFor.put_nil : SoundFor l ad a (ad.put e' []) :=
  SoundFor.put h he haddr (fun _ hx => absurd hx not_mem_nil)
    fun _ _ hx => absurd hx not_mem_nil

theorem SoundFor.put_sent {p : EapolPacket} : SoundFor l ad a (ad.put e' [.sent p]) := by
  refine .put h he haddr ?_ ?_
  · intro x hx
    rw [mem_singleton.mp hx]
    intro _ _ hne
    cases hne
  · intro _ x hx
    rw [mem_singleton.mp hx]
    trivial

end

variable {pmk : Nat → List Byte}

theorem LedgerInv.loaded {apidx : Nat} {key : List Byte}
    (h : LedgerInv l pmk) (hown : l.delivered a = some key) :
    LedgerInv { l with owner := update l.owner apidx (some a) }
      (update pmk apidx key) := by
  intro i b hb
  dsimp only at hb ⊢
  rcases eq_or_ne i apidx with rfl | hi
  · rw [update_self] at hb ⊢
    rw [← Option.some.inj hb, hown]
  · rw [update_of_ne hi] at hb ⊢
    exact h i b hb

section

variable (h : LedgerInv l ad.pmk) (he : ad.macTab.entry a = some e)

include h he

theorem SoundFor.start4WayHS (haddr : e'.addr = a) (hown : LoadsOwn l ad e' env) :
    SoundFor l ad a (start4WayHS c ad e' env) := by
  have hnil : ∀ x : Effect, x ∈ ([] : List Effect) → NoLoad x := fun _ hx =>
    absurd hx not_mem_nil
  have hnil' : Enterprise e → ∀ x ∈ ([] : List Effect), EffectOwn l a x := fun _ _ hx =>
    absurd hx not_mem_nil
  unfold Wpa.start4WayHS
  -- three ways to give up, which write the entry at most
  rcases wpaStart4WayHS_cases c (ad.bssOf e') e' env with
    ⟨-, hrun⟩ | ⟨-, -, hrun⟩ | ⟨-, -, -, hrun⟩ | ⟨hgo, hwsc, hmem, msg1, hrun⟩
  · rw [hrun]
    exact .putBss_same h he haddr rfl hnil hnil'
  · rw [hrun]
    exact .putBss_same h he haddr rfl hnil hnil'
  · rw [hrun]
    exact .putBss_same h he haddr rfl hnil hnil'
  · rw [hrun]
    simp only [loadedKey, cachedKeyBss]
    cases hidx : (if e'.authMode = .wpa2 then e'.pmkidCacheIdx else none :
        Option (Fin maxPmkidCount)) with
    | none =>
      -- message 1 under the key that the BSS has
      refine .putBss_same h he haddr rfl ?_ ?_
      · intro x hx
        rw [mem_singleton.mp hx]
        intro _ _ hne
        cases hne
      · intro _ x hx
        rw [mem_singleton.mp hx]
        trivial
    | some i =>
      -- the cached key becomes that of the BSS
      have hmode : e'.authMode = .wpa2 := by
        by_contra hne
        simp [hne] at hidx
      rw [if_pos hmode] at hidx
      have hdelivered := hown hgo hwsc hmem hmode i hidx
      rw [haddr] at hdelivered
      refine .putBss he haddr (h.loaded hdelivered) ?_
      intro _ x hx
      rcases mem_cons.mp hx with rfl | hx
      · trivial
      · rw [mem_singleton.mp hx]
        trivial

theorem SoundFor.pairMsg2 (f : Elem) (hown : ActionOwn c l ad e f env (some .pairMsg2)) :
    SoundFor l ad a (runAction c ad e f env .pairMsg2) := by
  have haddr : e.addr = a := ad.macTab.addr_eq _ _ he
  have hkey : Enterprise e → ¬ Msg2Dropped (ad.bssOf e) e f →
      l.delivered a = some (ad.bssOf e).mbss.pmk := by
    intro hent hgo
    exact h e.apidx a (by rw [hown hent hgo, haddr])
  unfold runAction
  rcases peerPairMsg2Action_cases c (ad.bssOf e) e f env with
    ⟨-, hrun⟩ | ⟨hgo, -, hrun⟩ | ⟨hgo, -, msg3, hrun⟩
  · rw [hrun]
    exact .put_nil h he haddr
  · rw [hrun]
    refine .put h he haddr ?_ ?_
    · intro x hx
      rw [mem_singleton.mp hx]
      intro _ _ hne
      cases hne
    · intro hent x hx
      rw [mem_singleton.mp hx]
      exact hkey hent hgo
  · rw [hrun]
    refine .put h he haddr ?_ ?_
    · intro x hx
      simp only [mem_cons, not_mem_nil, or_false] at hx
      rcases hx with rfl | rfl <;> (intro _ _ hne; cases hne)
    · intro hent x hx
      simp only [mem_cons, not_mem_nil, or_false] at hx
      rcases hx with rfl | rfl
      · exact hkey hent hgo
      · trivial

theorem SoundFor.pairMsg4 (f : Elem) (hown : ActionOwn c l ad e f env (some .pairMsg4)) :
    SoundFor l ad a (runAction c ad e f env .pairMsg4) := by
  have haddr : e.addr = a := ad.macTab.addr_eq _ _ he
  unfold runAction
  rcases peerPairMsg4Action_cases c (ad.bssOf e) e f env with
    ⟨-, hrun⟩ | ⟨hacc, pairwiseKey, asicKey, gtkState, rCounter, effects, hrun, -, rest, rfl, hrest⟩
  · rw [hrun]
    exact .putBss_same h he haddr rfl (fun _ hx => absurd hx not_mem_nil)
      fun _ _ hx => absurd hx not_mem_nil
  rw [hrun]
  have hpmk : (cachedBss c (ad.bssOf e).mbss e env).pmk = ad.pmk e.apidx := by
    unfold cachedBss
    split_ifs <;> rfl
  -- the key is installed, then it is cached or a message is sent
  have hall : ∀ x ∈ (wpaInstallPairwiseKey e true).2 ++ rest, (∃ key, x = .installed key) ∨
      (e.authMode = .wpa2 ∧ x = .cached e.addr (ad.bssOf e).mbss.pmk) ∨ ∃ p, x = .sent p := by
    intro x hx
    rcases mem_append.mp hx with hx | hx
    · rcases wpaInstallPairwiseKey_effects e true with hnone | ⟨key, hkey⟩
      · rw [hnone] at hx
        exact absurd hx not_mem_nil
      · rw [hkey] at hx
        exact .inl ⟨key, mem_singleton.mp hx⟩
    · split_ifs at hrest with hmode
      · rw [hrest] at hx
        exact .inr (.inl ⟨hmode, mem_singleton.mp hx⟩)
      · rcases hrest with rfl | ⟨msg1, rfl⟩
        · exact absurd hx not_mem_nil
        · exact .inr (.inr ⟨msg1, mem_singleton.mp hx⟩)
  refine .putBss_same h he haddr hpmk ?_ ?_
  · intro x hx
    rcases hall x hx with ⟨key, rfl⟩ | ⟨-, rfl⟩ | ⟨p, rfl⟩ <;> (intro _ _ hne; cases hne)
  · intro _ x hx
    rcases hall x hx with ⟨key, rfl⟩ | ⟨hmode, rfl⟩ | ⟨p, rfl⟩
    · trivial
    · exact ⟨haddr, h e.apidx a (by rw [hown hmode hacc, haddr])⟩
    · trivial

theorem SoundFor.putApCli {s : Supplicant} (hkind : ¬ e.kind ≠ .apcli) (haddr : e'.addr = a)
    (hload : ∀ x ∈ effects, NoLoad x) : SoundFor l ad a (ad.putApCli s e' effects) := by
  have hput : SoundFor l { ad with apCli := s } a (({ ad with apCli := s } : Adapter).put e' effects) := by
    refine .put h he haddr hload fun hent => absurd ?_ hkind
    rw [hent.1]
    decide
  exact hput

end

theorem noLoad_of_quiet
    (h : ∀ x ∈ effects, (∃ p, x = .sent p) ∨ (∃ key, x = .installed key) ∨ x = .overflow ∨
      ∃ pmk aNonce sNonce, x = .derived pmk aNonce sNonce) : ∀ x ∈ effects, NoLoad x := by
  intro x hx
  rcases h x hx with ⟨p, rfl⟩ | ⟨key, rfl⟩ | rfl | ⟨pmk, aNonce, sNonce, rfl⟩ <;>
    (intro _ _ hne; cases hne)

theorem SoundFor.supplicant (h : LedgerInv l ad.pmk) (he : ad.macTab.entry a = some e) (f : Elem)
    {action : Action} (haction : action = .pairMsg1 ∨ action = .pairMsg3 ∨ action = .groupMsg1) :
    SoundFor l ad a (runAction c ad e f env action) := by
  have haddr : e.addr = a := ad.macTab.addr_eq _ _ he
  -- no effect of a supplicant loads a key into a BSS
  rcases haction with rfl | rfl | rfl
  · unfold runAction
    split_ifs with hkind
    · exact .quiet h rfl
    rcases peerPairMsg1Action_cases c ad.apCli e f env with hrun | ⟨rest, hrest, hrun⟩
    · rw [hrun]
      exact .put_nil h he haddr
    · rw [hrun]
      refine .putApCli (s := ad.apCli) h he hkind haddr (noLoad_of_quiet fun x hx => ?_)
      rcases mem_cons.mp hx with rfl | hx
      · exact .inr (.inr (.inr ⟨_, _, _, rfl⟩))
      · rcases hrest with rfl | ⟨msg2, rfl⟩
        · exact absurd hx not_mem_nil
        · exact .inl ⟨_, mem_singleton.mp hx⟩
  · unfold runAction
    split_ifs with hkind
    · exact .quiet h rfl
    rcases peerPairMsg3Action_cases c ad.apCli e f env with
      ⟨-, s, rCounter, effects, hrun, heff⟩ |
        ⟨-, s, pairwiseKey, asicKey, acceptAll, portSecured, installed, msg4, hrun, hinst⟩
    · rw [hrun]
      refine .putApCli h he hkind haddr (noLoad_of_quiet fun x hx => ?_)
      rcases heff with rfl | rfl
      · exact absurd hx not_mem_nil
      · exact .inr (.inr (.inl (mem_singleton.mp hx)))
    · rw [hrun]
      -- the PTK is installed, or it was before; then message 4 is sent
      refine .putApCli h he hkind haddr (noLoad_of_quiet fun x hx => ?_)
      rcases mem_append.mp hx with hx | hx
      · rcases hinst with rfl | ⟨key, rfl⟩
        · exact absurd hx not_mem_nil
        · exact .inr (.inl ⟨key, mem_singleton.mp hx⟩)
      · exact .inl ⟨_, mem_singleton.mp hx⟩
  · unfold runAction
    split_ifs with hkind
    · exact .quiet h rfl
    obtain ⟨s, rCounter, portSecured, acceptAll, effects, hrun, heff⟩ :=
      peerGroupMsg1Action_cases c ad.apCli e f env
    rw [hrun]
    refine .putApCli h he hkind haddr (noLoad_of_quiet fun x hx => ?_)
    rcases heff with rfl | rfl | ⟨msg2, rfl⟩
    · exact absurd hx not_mem_nil
    · exact .inr (.inr (.inl (mem_singleton.mp hx)))
    · exact .inl ⟨_, mem_singleton.mp hx⟩

theorem SoundFor.groupMsg2 (h : LedgerInv l ad.pmk) (he : ad.macTab.entry a = some e) (f : Elem) :
    SoundFor l ad a (runAction c ad e f env .groupMsg2) := by
  have haddr : e.addr = a := ad.macTab.addr_eq _ _ he
  unfold runAction
  rcases peerGroupMsg2Action_cases c (ad.bssOf e) e f env with hrun | ⟨-, hrun⟩
  · rw [hrun]
    exact .put_nil h he haddr
  · rw [hrun]
    exact .put_nil h he haddr

theorem handleCounterMeasure_pmk : (handleCounterMeasure ad e env).pmk = ad.pmk := by
  unfold handleCounterMeasure
  dsimp only
  split_ifs
  · rfl
  · rfl
  · funext i
    simp only [Adapter.pmk]
    rcases eq_or_ne i e.apidx with rfl | hi
    · rw [update_self]
    · rw [update_of_ne hi]
  · rfl

section

variable (h : LedgerInv l ad.pmk)

include h

theorem SoundFor.groupKeyRequest : SoundFor l ad a (requestGroupKey c ad e env) := by
  have hsent : ∀ b, ∀ x ∈ (requestGroupKey c ad e env).2 b, ∃ p, x = .sent p := by
    intro b x hx
    simp only [requestGroupKey] at hx
    cases hb : ad.macTab.entry b with
    | none =>
      rw [hb] at hx
      exact absurd hx not_mem_nil
    | some y =>
      rw [hb] at hx
      dsimp only at hx
      unfold restartGroupHS at hx
      split_ifs at hx
      · rcases wpaStart2WayGroupHS_cases c
          ⟨newGroupKey c (ad.mbss e.apidx) env, e.apidx < ad.bssidNum, ad.resetting⟩
          { y with gtkState := .negotiating } env with hrun | ⟨msg1, hrun⟩
        · rw [hrun] at hx
          exact absurd hx not_mem_nil
        · rw [hrun] at hx
          exact ⟨_, mem_singleton.mp hx⟩
      · exact absurd hx not_mem_nil
  have hpmk : (requestGroupKey c ad e env).1.pmk = ad.pmk := by
    funext i
    simp only [Adapter.pmk, requestGroupKey]
    rcases eq_or_ne i e.apidx with rfl | hi
    · rw [update_self]
      rfl
    · rw [update_of_ne hi]
  constructor
  · rw [KeyLedger.observe_noLoad (noLoad_of_quiet fun x hx => .inl (hsent a x hx)), hpmk]
    exact h
  · intro b y _ _ x hx
    obtain ⟨p, rfl⟩ := hsent b x hx
    trivial

theorem SoundFor.eapolKey (f : Elem) (hown : FindsOwn c l ad (.eapolKey f env)) :
    SoundFor l ad f.addr2 (wpaEAPOLKeyAction c ad f env) := by
  unfold wpaEAPOLKeyAction
  cases he : ad.macTab.entry f.addr2 with
  | none => exact .quiet h rfl
  | some e =>
    dsimp only
    split_ifs with hadm
    · exact .quiet h rfl
    have haction := hown e he (Bool.not_eq_false _ ▸ hadm)
    cases hact : actionOf f.packet with
    | none => exact .quiet h rfl
    | some action =>
      rw [hact] at haction
      cases action with
      | pairMsg1 => exact .supplicant h he f (.inl rfl)
      | pairMsg2 => exact .pairMsg2 h he f haction
      | pairMsg3 => exact .supplicant h he f (.inr (.inl rfl))
      | pairMsg4 => exact .pairMsg4 h he f haction
      | groupMsg1 => exact .supplicant h he f (.inr (.inr rfl))
      | groupMsg2 => exact .groupMsg2 h he f
      | counterMeasure => exact .quiet h handleCounterMeasure_pmk
      | groupKeyRequest => exact .groupKeyRequest h
      | pairwiseKeyRequest =>
        have haddr : (clearedEntry e).addr = f.addr2 := ad.macTab.addr_eq _ e he
        exact .start4WayHS h he haddr haction

theorem SoundFor.eapolStart (hown : FindsOwn c l ad (.eapolStart a env)) :
    SoundFor l ad a (wpaEAPOLStartAction c ad a env) := by
  unfold wpaEAPOLStartAction
  refine atEntry (.quiet h rfl) fun e he haddr => ?_
  split_ifs with hok
  · exact .start4WayHS h he haddr (hown e he hok)
  · exact .quiet h rfl

theorem SoundFor.eapSuccess (hown : FindsOwn c l ad (.eapSuccess a env)) :
    SoundFor l ad a (wpaSendSuccess c ad a env) := by
  unfold wpaSendSuccess
  refine atEntry (.quiet h rfl) fun e he haddr => ?_
  split_ifs with hok
  · exact .start4WayHS h he haddr (hown e he hok)
  · exact .quiet h rfl

theorem SoundFor.eapRequest (a : MacAddr) : SoundFor l ad a (wpaSendRequest ad a) := by
  unfold wpaSendRequest
  refine atEntry (.quiet h rfl) fun e he haddr => ?_
  split_ifs
  · exact .put_nil h he haddr
  · exact .quiet h rfl

theorem SoundFor.retry {group : Bool} (hown : FindsOwn c l ad (.retry a group env)) :
    SoundFor l ad a (wpaRetryExec c ad a group env) := by
  unfold wpaRetryExec
  refine atEntry (.quiet h rfl) fun e he haddr => ?_
  split_ifs with _ hgroup
  · exact .quiet h rfl
  · -- the group handshake writes the entry and sends at most a message
    rcases wpaStart2WayGroupHS_cases c (ad.bssOf e) e env with hrun | ⟨msg1, hrun⟩
    · rw [hrun]
      exact .put_nil h he haddr
    · rw [hrun]
      exact .put_sent h he haddr
  · exact .quiet h rfl
  · exact .start4WayHS h he haddr (hown e he (by simpa using hgroup))

end

theorem LedgerInv.deliver {key : List Byte} (h : LedgerInv l pmk)
    (apidx : Nat) : LedgerInv (l.deliver (some apidx) a key) (update pmk apidx key) := by
  intro i b hb
  simp only [KeyLedger.deliver, Option.some.injEq] at hb ⊢
  rcases eq_or_ne apidx i with rfl | hi
  · rw [if_pos rfl] at hb
    rw [← Option.some.inj hb, update_self, update_self]
  · rw [if_neg hi] at hb
    split_ifs at hb with hown
    have hba : b ≠ a := by
      rintro rfl
      exact hown hb
    rw [update_of_ne hba, update_of_ne hi.symm]
    exact h i b hb

theorem LedgerInv.deliver_none {key : List Byte} (h : LedgerInv l pmk) :
    LedgerInv (l.deliver none a key) pmk := by
  intro i b hb
  simp only [KeyLedger.deliver, reduceCtorEq, if_false] at hb ⊢
  split_ifs at hb with hown
  have hba : b ≠ a := by
    rintro rfl
    exact hown hb
  rw [update_of_ne hba]
  exact h i b hb

theorem step_sound (h : LedgerInv l ad.pmk) (ev : Event) (hown : FindsOwn c l ad ev) :
    LedgerInv (l.after ad (step c ad ev) ev) (step c ad ev).1.pmk ∧ AllOwn l ad (step c ad ev) := by
  have hquiet : ∀ ad' : Adapter, AllOwn l ad ad'.quiet := fun _ _ _ _ _ _ hx =>
    absurd hx not_mem_nil
  cases ev with
  | eapolKey f env => exact SoundFor.eapolKey h f hown
  | eapolStart b env => exact SoundFor.eapolStart h hown
  | eapSuccess b env => exact SoundFor.eapSuccess h hown
  | eapRequest b => exact SoundFor.eapRequest h b
  | retry b group env => exact SoundFor.retry h hown
  | addWPAKey apidx b keyMaterial =>
    simp only [step, rtmpIoctlAddWPAKey, KeyLedger.after]
    refine ⟨?_, hquiet _⟩
    split_ifs
    · have hpmk : ∀ m : Mbss, Adapter.pmk { ad with mbss := update ad.mbss apidx m } =
          update ad.pmk apidx m.pmk := by
        intro m
        funext i
        simp only [Adapter.pmk]
        rcases eq_or_ne i apidx with rfl | hi
        · rw [update_self, update_self]
        · rw [update_of_ne hi, update_of_ne hi, Adapter.pmk]
      simp only [Adapter.quiet, hpmk]
      exact h.deliver apidx
    · exact h
  | assocPmkid b pmkid =>
    simp only [step, assocPmkid, KeyLedger.after]
    refine ⟨?_, hquiet _⟩
    cases ad.macTab.entry b with
    | none => exact h
    | some e =>
      dsimp only
      split_ifs
      · cases pmkidMatch (ad.mbss e.apidx) e pmkid with
        | none => exact h
        | some i => exact h.deliver_none
      · exact h

end

/-! ## Runs -/

/-- An adapter with the record of the keys that were delivered. -/
structure Ledgered where
  adapter : Adapter
  ledger : KeyLedger

/-- One event. -/
def ledgeredStep (s : Ledgered) (ev : Event) : Ledgered where
  adapter := (step c s.adapter ev).1
  ledger := s.ledger.after s.adapter (step c s.adapter ev) ev

/-- No key has been delivered. -/
def Ledgered.start (ad : Adapter) : Ledgered := ⟨ad, ⟨fun _ => none, fun _ => none⟩⟩

/-- **802.1X stations have their own keys**: from any adapter, along every run of deliveries, cache
    hits and handshakes of any number of stations in which each event finds the key of the BSS and
    the cached key to be the station's own, every PTK derived for a station and every cache entry
    written for it is made from the key last delivered for that station. -/
theorem stations_keyed_from_own_key (ad : Adapter) (evs : List Event)
    (hrun : Along (ledgeredStep c) (fun s => FindsOwn c s.ledger s.adapter) (Ledgered.start ad) evs) :
    Along (ledgeredStep c) (fun s ev => AllOwn s.ledger s.adapter (step c s.adapter ev))
      (Ledgered.start ad) evs := by
  refine hrun.of_invariant
    (fun s ev (hinv : LedgerInv s.ledger s.adapter.pmk) hown => (step_sound hinv ev hown).1)
    (fun s ev hinv hown => (step_sound hinv ev hown).2) ?_
  intro i a ha
  cases ha

/-! ## Two stations -/

/-- An access point for WPA2-Enterprise with two stations. -/
def officeAdapter : Adapter :=
  homeAdapter { homeBss with authMode := .wpa2 }
    [homeStation peer .wpa2, homeStation 0x001018000003 .wpa2]

def firstKey : List Byte := replicate 32 0x11

def secondKey : List Byte := replicate 32 0x22

/-- The first station's message 2, made with its own key. -/
def officeMsg2 : Elem :=
  frameOf peer (constructEapolMsg c { peerParams c .pair2 1 with
    ptk := wpaDerivePTK c firstKey 1 homeBss.bssid 2 peer })

theorem actionOf_officeMsg2 : actionOf (officeMsg2 c).packet = some .pairMsg2 := by
  refine actionOf_constructEapolMsg c { peerParams c .pair2 1 with
    ptk := wpaDerivePTK c firstKey 1 homeBss.bssid 2 peer } fun _ => ?_
  have hdata : ({ peerParams c .pair2 1 with
      ptk := wpaDerivePTK c firstKey 1 homeBss.bssid 2 peer } : MsgParams).builtKeyData c =
      rtmpInsertRSNIE homeBss.rsnIe := rfl
  rw [hdata]
  decide

/-- The key of the first station comes, then its handshake begins. -/
def officeRun : List Event := [.addWPAKey 0 peer firstKey, .eapSuccess peer (homeEnv 1)]

/-- The first station once its handshake has begun. -/
def officeStation : Entry :=
  { homeStation peer .wpa2 with wpaState := .ptkStart, rCounter := 1, aNonce := 1 }

/-- A station alone is keyed from its own key. -/
theorem stations_keyed_from_own_key_alone : firstKey ≠ secondKey ∧ ∀ c : Crypto,
      Along (ledgeredStep c) (fun s ev => AllOwn s.ledger s.adapter (step c s.adapter ev))
        (Ledgered.start officeAdapter) (officeRun ++ [.eapolKey (officeMsg2 c) (homeEnv 3)]) := by
  refine ⟨by decide, fun c => ?_⟩
  refine stations_keyed_from_own_key c officeAdapter _ ⟨trivial, ?_, ?_, trivial⟩
  · intro e he _ _ _ _ _ i hi
    obtain rfl : homeStation peer .wpa2 = e := Option.some.inj he
    cases hi
  · intro e he _
    rw [actionOf_officeMsg2]
    intro _ _
    obtain rfl : officeStation = e := Option.some.inj he
    rfl

/-- A second delivery comes before the first station's message 2. -/
def mixedRun : List Event :=
  [.addWPAKey 0 peer firstKey, .addWPAKey 0 0x001018000003 secondKey,
    .eapSuccess peer (homeEnv 1)]

/-- The access point after these events. -/
def mixedState : Ledgered := runEvents (ledgeredStep c) (Ledgered.start officeAdapter) mixedRun

theorem mixedState_entry : (mixedState c).adapter.macTab.entry peer = some officeStation := rfl

theorem mixedState_bss : (mixedState c).adapter.bssOf officeStation =
    ⟨{ homeBss with authMode := .wpa2, pmk := secondKey }, true, false⟩ := rfl

theorem mixedState_delivered : (mixedState c).ledger.delivered peer = some firstKey := rfl

theorem officeMsg2_derives {ad : Adapter} {m : Mbss}
    (he : ad.macTab.entry peer = some officeStation)
    (hbss : ad.bssOf officeStation = ⟨m, true, false⟩) :
    Effect.derived m.pmk 1 (officeMsg2 c).packet.keyNonce ∈
      (step c ad (.eapolKey (officeMsg2 c) (homeEnv 3))).2 peer := by
  have hadm : admitted officeStation (officeMsg2 c) = true :=
    admitted_constructEapolMsg c _ _ officeStation (.inl rfl) rfl
      ⟨fun h => absurd h (by decide), fun _ => rfl⟩ rfl (by decide)
  have hrun : step c ad (.eapolKey (officeMsg2 c) (homeEnv 3)) =
      runAction c ad officeStation (officeMsg2 c) (homeEnv 3) .pairMsg2 :=
    wpaEAPOLKeyAction_of_admitted c he hadm (actionOf_officeMsg2 c) (homeEnv 3)
  have hlen : minMsgLen ≤ (officeMsg2 c).msgLen := minMsgLen_le_frameOf c _ _ (by
    rw [show MsgParams.builtKeyData c { peerParams c .pair2 1 with
      ptk := wpaDerivePTK c firstKey 1 homeBss.bssid 2 peer } = rtmpInsertRSNIE homeBss.rsnIe from rfl]
    decide)
  rw [hrun]
  simp only [runAction, hbss]
  rcases peerPairMsg2Action_cases c ⟨m, true, false⟩ officeStation (officeMsg2 c) (homeEnv 3) with
    ⟨hdrop, -⟩ | ⟨-, -, hstored⟩ | ⟨-, -, msg3, hstored⟩
  · rcases hdrop with h | h | h | h
    · exact absurd rfl h
    · omega
    · exact absurd h (by decide)
    · exact absurd h (by simp)
  · rw [hstored]
    simp only [Adapter.put]
    rw [if_pos (show peer = (withMsg2 c m officeStation (officeMsg2 c).packet).addr from rfl)]
    exact mem_cons_self
  · rw [hstored]
    simp only [Adapter.put]
    rw [if_pos (show peer = (withMsg2 c m officeStation (officeMsg2 c).packet).addr from rfl)]
    exact mem_cons_self

/-- A key that is delivered for another station is used for this one. -/
theorem delivery_mixes_keys : ¬ ∃ c : Crypto, ∀ (ad : Adapter) (evs : List Event),
      Along (ledgeredStep c) (fun s ev => AllOwn s.ledger s.adapter (step c s.adapter ev))
        (Ledgered.start ad) evs := by
  rintro ⟨c, hall⟩
  have hrun := hall officeAdapter (mixedRun ++ [.eapolKey (officeMsg2 c) (homeEnv 3)])
  have hlast : AllOwn (mixedState c).ledger (mixedState c).adapter _ := hrun.last
  have hown : (mixedState c).ledger.delivered peer = some secondKey :=
    hlast peer officeStation (mixedState_entry c) ⟨rfl, .inr rfl⟩ _
      (officeMsg2_derives c (mixedState_entry c) (mixedState_bss c))
  rw [mixedState_delivered] at hown
  exact absurd hown (by decide)

end RalinkSdk.Wpa
