import RalinkSdk.Wpa.RsnIe

/-!
# The element of an association request

`APValidateRSNIE` and its three scanners of `ap/ap_wpa.c`, against the element that
`RTMPMakeRSNIE` builds for the access point.  The scanners trust the counts of the station, and
read the access point's own element in the layout of the station's.

## Conventions

- A read past the end of the station's element, or of the array `RSN_IE`, is `none`.
- WAPI is not compiled in.  A configuration has one of the six modes for which `RTMPMakeRSNIE`
  builds an element.

## Source

`ap/ap_wpa.c`, `ap/ap_sanity.c`, `common/cmm_wpa.c`.
-/

namespace RalinkSdk.Wpa.Assoc

open Option

/-! ## The element of the access point -/

abbrev Suite : Type := List (BitVec 8)

/-- `Ndis802_11AuthModeWPA` to `Ndis802_11AuthModeWPA1PSKWPA2PSK`, without `WPANone`. -/
inductive ApAuthMode where
  | wpa | wpaPsk | wpa2 | wpa2Psk | wpa1Wpa2 | wpa1PskWpa2Psk
  deriving DecidableEq

/-- `Ndis802_11WEPDisabled`, `WEPEnabled` and `Encryption2Enabled` to `Encryption4Enabled`. -/
inductive ApWepStatus where
  | disabled | wep | tkip | aes | tkipAes
  deriving DecidableEq

/-- The security of a `MULTISSID_STRUCT`, with the bits 0x08, 0x04, 0x02 and 0x01 of
    `WpaMixPairCipher`. -/
structure ApConfig where
  authMode : ApAuthMode
  wepStatus : ApWepStatus
  wpaTkip : Bool
  wpaAes : Bool
  wpa2Tkip : Bool
  wpa2Aes : Bool
  preAuth : Bool

/-- The two layouts: `IE_WPA` or `IE_WPA2`. -/
inductive Layout where
  | wpa | wpa2
  deriving DecidableEq

/-- Where the group suite is. -/
def Layout.groupAt : Layout → Nat
  | .wpa => 6
  | .wpa2 => 2

/-- Where the count of pairwise suites is. -/
def Layout.ucountAt (l : Layout) : Nat := l.groupAt + 4

def ouiTkip : Layout → Suite
  | .wpa => [0x00, 0x50, 0xf2, 0x02]
  | .wpa2 => [0x00, 0x0f, 0xac, 0x02]

def ouiCcmp : Layout → Suite
  | .wpa => [0x00, 0x50, 0xf2, 0x04]
  | .wpa2 => [0x00, 0x0f, 0xac, 0x04]

def oui8021xAkm : Layout → Suite
  | .wpa => [0x00, 0x50, 0xf2, 0x01]
  | .wpa2 => [0x00, 0x0f, 0xac, 0x01]

def ouiPskAkm : Layout → Suite
  | .wpa => [0x00, 0x50, 0xf2, 0x02]
  | .wpa2 => [0x00, 0x0f, 0xac, 0x02]

namespace ApConfig

variable (cfg : ApConfig)

/-- `MIX_CIPHER_WPA_TKIP_ON` and `MIX_CIPHER_WPA2_TKIP_ON` -/
def tkipOn : Layout → Bool
  | .wpa => cfg.wpaTkip
  | .wpa2 => cfg.wpa2Tkip

/-- `MIX_CIPHER_WPA_AES_ON` and `MIX_CIPHER_WPA2_AES_ON` -/
def aesOn : Layout → Bool
  | .wpa => cfg.wpaAes
  | .wpa2 => cfg.wpa2Aes

/-- The group suite. -/
def mcast (l : Layout) : List Suite :=
  match cfg.wepStatus with
  | .disabled | .wep => []
  | .tkip | .tkipAes => [ouiTkip l]
  | .aes => [ouiCcmp l]

/-- The pairwise suites. -/
def ucast (l : Layout) : List Suite :=
  match cfg.wepStatus with
  | .disabled | .wep => []
  | .tkip => [ouiTkip l]
  | .aes => [ouiCcmp l]
  | .tkipAes =>
    if cfg.tkipOn l then if cfg.aesOn l then [ouiTkip l, ouiCcmp l] else [ouiTkip l]
    else [ouiCcmp l]

/-- What `RTMPMakeRsnIeCipher` writes; without a cipher `*rsn_len` is 0 behind it. -/
def cipherBytes (l : Layout) : List (BitVec 8) :=
  (if l = .wpa then [0x00, 0x50, 0xf2, 0x01] else []) ++ [1, 0] ++ (cfg.mcast l).flatten ++
    (if cfg.ucast l = [] then [] else [BitVec.ofNat 8 (cfg.ucast l).length, 0]) ++
    (cfg.ucast l).flatten

/-- The suites that `RTMPMakeRsnIeAKM` writes. -/
def auth (l : Layout) : List Suite :=
  match l, cfg.authMode with
  | .wpa2, .wpa2 | .wpa2, .wpa1Wpa2 => [oui8021xAkm l]
  | .wpa2, .wpa2Psk | .wpa2, .wpa1PskWpa2Psk => [ouiPskAkm l]
  | .wpa, .wpa | .wpa, .wpa1Wpa2 => [oui8021xAkm l]
  | .wpa, .wpaPsk | .wpa, .wpa1PskWpa2Psk => [ouiPskAkm l]
  | _, _ => []

/-- `RTMPMakeRsnIeCipher`, `RTMPMakeRsnIeAKM` and `RTMPMakeRsnIeCap` on an array of zeros. -/
def makeRsnIe (l : Layout) : List (BitVec 8) :=
  let rsnLen := if cfg.ucast l = [] then 0 else (cfg.cipherBytes l).length
  let tail := [BitVec.ofNat 8 (cfg.auth l).length, 0] ++ (cfg.auth l).flatten ++
    (if l = .wpa2 then [if cfg.preAuth then 1 else 0, 0] else [])
  let ie := (cfg.cipherBytes l).take rsnLen ++ tail ++ (cfg.cipherBytes l).drop (rsnLen + tail.length)
  ie ++ List.replicate (255 - ie.length) 0

/-- `bMixRsnIe` -/
def mixed : Bool := cfg.authMode = .wpa1Wpa2 || cfg.authMode = .wpa1PskWpa2Psk

/-- `PrimaryRsnie` -/
def primary : Layout := if cfg.authMode = .wpa2 ∨ cfg.authMode = .wpa2Psk then .wpa2 else .wpa

/-- `RSN_IE[IE_Idx]`, the array that an element of a layout is compared with. -/
def rsnIeFor (l : Layout) : List (BitVec 8) :=
  if l = .wpa2 ∧ cfg.mixed then cfg.makeRsnIe .wpa2 else cfg.makeRsnIe cfg.primary

/-- The access point has an element of the layout. -/
def Speaks (l : Layout) : Prop := l = cfg.primary ∨ l = .wpa2 ∧ cfg.mixed = true

/-- The AKM suites of the access point's element; without a cipher its lists are empty. -/
def akm (l : Layout) : List Suite := if cfg.ucast l = [] then [] else cfg.auth l

end ApConfig

/-! ## The scanners -/

/-- An element as `PeerAssocReqSanity` lets it pass: `Eid`, `Octet`, and `MIN_LEN_OF_RSNIE`. -/
structure Element where
  eid : BitVec 8
  octet : List (BitVec 8)
  min_len : 18 ≤ octet.length
  len_lt : octet.length < 256

def Element.layout (el : Element) : Option Layout :=
  if el.eid.toNat = ieWpa then some .wpa else if el.eid.toNat = ieRsn then some .wpa2 else none

def suiteAt (e : List (BitVec 8)) (p : Nat) : Option Suite :=
  if p + 4 ≤ e.length then some ((e.drop p).take 4) else none

def countAt (e : List (BitVec 8)) (p : Nat) : Option Nat :=
  if p + 2 ≤ e.length then some (le16 e p) else none

/-- The loops `while (Count > 0)` over suites, until one is accepted. -/
def findSuite {α : Type} (accept : Suite → Option (Option α)) (e : List (BitVec 8)) :
    Nat → Nat → Option (Option α)
  | _, 0 => some none
  | p, count + 1 =>
    (suiteAt e p).bind fun s => (accept s).bind fun r =>
      if r.isSome then some r else findSuite accept e (p + 4) count

/-- `MLME_SUCCESS` and the codes of failure. -/
inductive StatusCode where
  | success | unspecifyFail | invalidGroupCipher | invalidPairwiseCipher | invalidAkmp
  deriving DecidableEq

/-- The fields of a `MAC_TABLE_ENTRY` that are recorded on the way. -/
structure StaEntry where
  authMode : ApAuthMode
  wepStatus : ApWepStatus
  deriving DecidableEq

section

variable (cfg : ApConfig) (l : Layout)

/-- The `AuthMode` recorded for a station. -/
def recordedAuthMode : ApAuthMode :=
  match cfg.authMode, l with
  | .wpa1Wpa2, .wpa => .wpa
  | .wpa1PskWpa2Psk, .wpa => .wpaPsk
  | .wpa1Wpa2, .wpa2 => .wpa2
  | .wpa1PskWpa2Psk, .wpa2 => .wpa2Psk
  | mode, _ => mode

/-- The four bytes of `RSN_IE` at an offset. -/
def apSuite (p : Nat) : Suite := ((cfg.rsnIeFor l).drop p).take 4

/-- `RTMPCheckMcast`, for an element of a layout. -/
def rtmpCheckMcast (octet : List (BitVec 8)) : Option Bool :=
  (suiteAt octet l.groupAt).map fun s => s = apSuite cfg l l.groupAt

/-- The branches of `RTMPCheckUcast` on one suite: the `WepStatus` that is recorded. -/
def acceptUcast (s : Suite) : Option ApWepStatus :=
  let base := l.ucountAt + 2
  if cfg.wepStatus = .tkipAes then
    if cfg.tkipOn l then
      if s = apSuite cfg l base then some .tkip
      else if cfg.aesOn l ∧ s = apSuite cfg l (base + 4) then some .aes
      else none
    else if s = apSuite cfg l base then some .aes else none
  else if s = apSuite cfg l base then some cfg.wepStatus else none

def rtmpCheckUcast (octet : List (BitVec 8)) : Option (Option ApWepStatus) :=
  (countAt octet l.ucountAt).bind fun count =>
    findSuite (fun s => some (acceptUcast cfg l s)) octet (l.ucountAt + 2) count

def rtmpCheckAKM (staAkm : Suite) (apRsnIe : List (BitVec 8)) : Option (Option Unit) :=
  (countAt apRsnIe l.ucountAt).bind fun ucount =>
    let p := l.ucountAt + 2 + 4 * ucount
    (countAt apRsnIe p).bind fun count =>
      findSuite (fun s => some (if staAkm = s then some () else none)) apRsnIe (p + 2) count

def rtmpCheckAUTH (octet : List (BitVec 8)) : Option (Option Unit) :=
  (countAt octet l.ucountAt).bind fun ucount =>
    let p := l.ucountAt + 2 + 4 * ucount
    (countAt octet p).bind fun count =>
      findSuite (fun s => rtmpCheckAKM l s (cfg.rsnIeFor l)) octet (p + 2) count

/-- `APValidateRSNIE`, behind the checks of the length. -/
def validateSuites (pEntry : StaEntry) (octet : List (BitVec 8)) : Option (StatusCode × StaEntry) :=
  let pEntry := { pEntry with authMode := recordedAuthMode cfg l }
  (rtmpCheckMcast cfg l octet).bind fun group =>
    if group then
      (rtmpCheckUcast cfg l octet).bind fun pairwise =>
        if pairwise.isSome then
          let pEntry := { pEntry with wepStatus := pairwise.getD cfg.wepStatus }
          (rtmpCheckAUTH cfg l octet).map fun akm =>
            (if akm.isSome then .success else .invalidAkmp, pEntry)
        else some (.invalidPairwiseCipher, { pEntry with wepStatus := cfg.wepStatus })
    else some (.invalidGroupCipher, pEntry)

end

/-- `APValidateRSNIE`; `rsnie_len` is the size of the element in a byte. -/
def apValidateRSNIE (cfg : ApConfig) (pEntry : StaEntry) (el : Element) :
    Option (StatusCode × StaEntry) :=
  let rsnieLen := BitVec.ofNat 8 (el.octet.length + 2)
  if rsnieLen = 0 then some (.success, pEntry)
  else if el.octet.length + 2 ≠ rsnieLen.toNat then some (.unspecifyFail, pEntry)
  else
    match el.layout with
    | none => some (.invalidGroupCipher, { pEntry with authMode := cfg.authMode })
    | some l => validateSuites cfg l pEntry el.octet

/-! ## What the check has to do -/

section

variable (cfg : ApConfig) (el : Element)

/-- A suite of the counted list at `p` lies in the element and is one of `offered`. -/
def Lists (octet : List (BitVec 8)) (offered : List Suite) (p : Nat) : Prop :=
  ∃ count, countAt octet p = some count ∧
    ∃ k < count, ∃ s ∈ offered, suiteAt octet (p + 2 + 4 * k) = some s

/-- The suites that the element lists are offered by the access point. -/
def SuitesOffered : Prop :=
  ∃ l, el.layout = some l ∧ cfg.Speaks l ∧
    (∃ s ∈ cfg.mcast l, suiteAt el.octet l.groupAt = some s) ∧
    Lists el.octet (cfg.ucast l) l.ucountAt ∧
    Lists el.octet (cfg.akm l) (l.ucountAt + 2 + 4 * le16 el.octet l.ucountAt)

/-- Only the element is read, and it is accepted only if its suites are offered. -/
def ValidatesRightly (pEntry : StaEntry) : Prop :=
  ∃ r, apValidateRSNIE cfg pEntry el = some r ∧ (r.1 = .success → SuitesOffered cfg el)

end

/-! ## The access point's element -/

section

variable {cfg : ApConfig} {l : Layout} {s : Suite}

theorem ucast_eq_nil_iff : cfg.ucast l = [] ↔ cfg.wepStatus = .disabled ∨ cfg.wepStatus = .wep := by
  unfold ApConfig.ucast
  cases cfg.wepStatus with
  | tkipAes => cases cfg.tkipOn l <;> cases cfg.aesOn l <;> simp
  | _ => simp

theorem auth_cases (h : cfg.Speaks l) :
    cfg.auth l = [oui8021xAkm l] ∨ cfg.auth l = [ouiPskAkm l] := by
  unfold ApConfig.Speaks ApConfig.primary ApConfig.mixed at h
  unfold ApConfig.auth
  cases l <;> cases hauth : cfg.authMode <;> simp_all

theorem rsnIeFor_of_speaks (h : cfg.Speaks l) : cfg.rsnIeFor l = cfg.makeRsnIe l := by
  unfold ApConfig.rsnIeFor
  split
  · next hmixed => rw [hmixed.1]
  · next hmixed =>
    obtain rfl | hl := h
    · rfl
    · exact absurd hl hmixed

theorem rsnIeFor_of_not_speaks (h : ¬cfg.Speaks l) : cfg.rsnIeFor l = cfg.makeRsnIe cfg.primary :=
  if_neg fun hmixed => h (.inr hmixed)

theorem cipher_cases (h : cfg.ucast l ≠ []) :
    cfg.mcast l = [ouiTkip l] ∧ cfg.ucast l = [ouiTkip l] ∨
      cfg.mcast l = [ouiCcmp l] ∧ cfg.ucast l = [ouiCcmp l] ∨
      cfg.mcast l = [ouiTkip l] ∧ cfg.ucast l = [ouiCcmp l] ∨
      cfg.mcast l = [ouiTkip l] ∧ cfg.ucast l = [ouiTkip l, ouiCcmp l] := by
  unfold ApConfig.ucast ApConfig.mcast at *
  cases hwep : cfg.wepStatus with
  | tkipAes => cases cfg.tkipOn l <;> cases cfg.aesOn l <;> simp
  | _ => simp_all

theorem reads_makeRsnIe (hspeaks : cfg.Speaks l) (hcipher : cfg.ucast l ≠ []) :
    cfg.mcast l = [((cfg.makeRsnIe l).drop l.groupAt).take 4] ∧
    (cfg.ucast l = [((cfg.makeRsnIe l).drop (l.ucountAt + 2)).take 4] ∨
      cfg.ucast l = [((cfg.makeRsnIe l).drop (l.ucountAt + 2)).take 4,
        ((cfg.makeRsnIe l).drop (l.ucountAt + 2 + 4)).take 4]) ∧
    countAt (cfg.makeRsnIe l) l.ucountAt = some (cfg.ucast l).length ∧
    countAt (cfg.makeRsnIe l) (l.ucountAt + 2 + 4 * (cfg.ucast l).length) = some 1 ∧
    ∃ x, cfg.auth l = [x] ∧
      suiteAt (cfg.makeRsnIe l) (l.ucountAt + 2 + 4 * (cfg.ucast l).length + 2) = some x := by
  unfold ApConfig.makeRsnIe ApConfig.cipherBytes
  obtain ⟨hm, hu⟩ | ⟨hm, hu⟩ | ⟨hm, hu⟩ | ⟨hm, hu⟩ := cipher_cases hcipher <;>
    obtain ha | ha := auth_cases hspeaks <;> rw [hm, hu, ha] <;> cases l <;>
    refine ⟨rfl, ?_, rfl, rfl, _, rfl, rfl⟩ <;> first | exact .inl rfl | exact .inr rfl

theorem mem_ucast_of_accept (hspeaks : cfg.Speaks l) (hcipher : cfg.ucast l ≠ [])
    (h : acceptUcast cfg l s ≠ none) : s ∈ cfg.ucast l := by
  obtain ⟨-, hucast, -⟩ := reads_makeRsnIe hspeaks hcipher
  unfold acceptUcast apSuite at h
  rw [rsnIeFor_of_speaks hspeaks] at h
  by_cases hfirst : s = ((cfg.makeRsnIe l).drop (l.ucountAt + 2)).take 4
  · obtain hu | hu := hucast <;> rw [hu, hfirst] <;> simp
  · -- only a second suite is left, and both ciphers are on
    obtain ⟨hwep, htkip, haes, hs⟩ : cfg.wepStatus = .tkipAes ∧ cfg.tkipOn l = true ∧
        cfg.aesOn l = true ∧ s = ((cfg.makeRsnIe l).drop (l.ucountAt + 2 + 4)).take 4 := by
      by_contra hnot
      simp_all
    have hlen : (cfg.ucast l).length = 2 := by simp [ApConfig.ucast, hwep, htkip, haes]
    obtain hu | hu := hucast
    · rw [hu] at hlen
      simp at hlen
    · rw [hu, hs]
      simp

theorem speaks_primary (cfg : ApConfig) : cfg.Speaks cfg.primary := .inl rfl

theorem ucast_eq_nil_congr (l' : Layout) : cfg.ucast l = [] ↔ cfg.ucast l' = [] := by
  rw [ucast_eq_nil_iff, ucast_eq_nil_iff]

set_option maxRecDepth 4000 in
theorem rtmpCheckAKM_of_no_cipher (h : cfg.ucast l = []) :
    rtmpCheckAKM l s (cfg.rsnIeFor l) = some none := by
  obtain ⟨l', hspeaks, hie⟩ : ∃ l', cfg.Speaks l' ∧ cfg.rsnIeFor l = cfg.makeRsnIe l' := by
    by_cases hl : cfg.Speaks l
    · exact ⟨l, hl, rsnIeFor_of_speaks hl⟩
    · exact ⟨_, speaks_primary cfg, rsnIeFor_of_not_speaks hl⟩
  have hucast := (ucast_eq_nil_congr l').mp h
  have hmcast : cfg.mcast l' = [] := by
    unfold ApConfig.mcast
    obtain hwep | hwep := ucast_eq_nil_iff.mp h <;> rw [hwep]
  obtain ⟨n, hucount, hcount⟩ : ∃ n, countAt (cfg.makeRsnIe l') l.ucountAt = some n ∧
      countAt (cfg.makeRsnIe l') (l.ucountAt + 2 + 4 * n) = some 0 := by
    unfold ApConfig.makeRsnIe ApConfig.cipherBytes
    obtain hauth | hauth := auth_cases hspeaks <;> rw [hmcast, hucast, hauth] <;> cases l <;>
      cases l' <;> cases cfg.preAuth <;> exact ⟨_, rfl, rfl⟩
  simp only [rtmpCheckAKM, hie, hucount, bind_some, hcount, findSuite]

theorem rtmpCheckAKM_of_speaks (h : cfg.Speaks l ∨ cfg.ucast l = []) :
    rtmpCheckAKM l s (cfg.rsnIeFor l) = some (if s ∈ cfg.akm l then some () else none) := by
  by_cases hcipher : cfg.ucast l = []
  · rw [rtmpCheckAKM_of_no_cipher hcipher, ApConfig.akm, if_pos hcipher]
    rfl
  · obtain hspeaks | hcipher' := h
    · obtain ⟨-, -, hucount, hcount, x, hauth, hx⟩ := reads_makeRsnIe hspeaks hcipher
      rw [rsnIeFor_of_speaks hspeaks]
      unfold rtmpCheckAKM ApConfig.akm
      simp only [hucount, bind_some, hcount, findSuite, hx, if_neg hcipher, hauth,
        List.mem_singleton]
      by_cases hs : s = x <;> simp [hs]
    · exact absurd hcipher' hcipher

set_option maxRecDepth 4000 in
theorem rtmpCheckAKM_of_not_speaks (hspeaks : ¬cfg.Speaks l) (hcipher : cfg.ucast l ≠ []) :
    rtmpCheckAKM l s (cfg.rsnIeFor l) = none := by
  have hother : l ≠ cfg.primary := fun hl => hspeaks (.inl hl)
  have hprimary := mt (ucast_eq_nil_congr cfg.primary).mpr hcipher
  obtain ⟨n, hucount, hfar, hlen⟩ : ∃ n, countAt (cfg.makeRsnIe cfg.primary) l.ucountAt = some n ∧
      64 ≤ n ∧ (cfg.makeRsnIe cfg.primary).length = 255 := by
    have hauth := auth_cases (speaks_primary cfg)
    generalize cfg.primary = l' at *
    unfold ApConfig.makeRsnIe ApConfig.cipherBytes
    obtain ⟨hm, hu⟩ | ⟨hm, hu⟩ | ⟨hm, hu⟩ | ⟨hm, hu⟩ := cipher_cases hprimary <;>
      obtain ha | ha := hauth <;> rw [hm, hu, ha] <;> cases l <;> cases l' <;>
      first | exact absurd rfl hother | exact ⟨_, rfl, Nat.le_of_ble_eq_true rfl, rfl⟩
  have hbeyond : countAt (cfg.makeRsnIe cfg.primary) (l.ucountAt + 2 + 4 * n) = none :=
    if_neg (by omega)
  simp only [rtmpCheckAKM, rsnIeFor_of_not_speaks hspeaks, hucount, bind_some, hbeyond, bind_none]

end

/-! ## The walks over the station's lists -/

/-- Among `n` suites from `p` on, one that lies in the element is accepted. -/
def FoundAt (accept : Suite → Prop) (octet : List (BitVec 8)) (p n : Nat) : Prop :=
  ∃ k < n, ∃ s, suiteAt octet (p + 4 * k) = some s ∧ accept s

section

variable {α : Type} {f : Suite → Option α} {octet : List (BitVec 8)} {p n : Nat}

theorem suiteAt_of_le (h : p + 4 ≤ octet.length) :
    suiteAt octet p = some ((octet.drop p).take 4) := if_pos h

theorem le_of_suiteAt {s : Suite} (h : suiteAt octet p = some s) : p + 4 ≤ octet.length := by
  by_contra hlt
  rw [suiteAt, if_neg hlt] at h
  cases h

theorem found_of_findSuite {a : α}
    (h : findSuite (fun s => some (f s)) octet p n = some (some a)) :
    FoundAt (f · = some a) octet p n := by
  induction n generalizing p with
  | zero => cases h
  | succ n ih =>
    obtain ⟨s, hs, hrest⟩ := bind_eq_some_iff.mp h
    rw [bind_some] at hrest
    split at hrest
    · exact ⟨0, n.succ_pos, s, hs, some.inj hrest⟩
    · obtain ⟨k, hk, t, ht, hf⟩ := ih hrest
      exact ⟨k + 1, by omega, t, by rwa [Nat.mul_succ, ← Nat.add_assoc, Nat.add_right_comm], hf⟩

theorem foundAt_of_findSuite {a : α}
    (h : findSuite (fun s => some (f s)) octet p n = some (some a)) :
    FoundAt (f · ≠ none) octet p n := by
  obtain ⟨k, hk, s, hs, hf⟩ := found_of_findSuite h
  exact ⟨k, hk, s, hs, hf.trans_ne (some_ne_none a)⟩

theorem findSuite_of_foundAt (h : FoundAt (f · ≠ none) octet p n) :
    ∃ a, findSuite (fun s => some (f s)) octet p n = some (some a) := by
  induction n generalizing p with
  | zero => obtain ⟨k, hk, -⟩ := h; omega
  | succ n ih =>
    obtain ⟨k, hk, s, hs, hf⟩ := h
    have hin := le_of_suiteAt hs
    rw [findSuite, suiteAt_of_le (by omega), bind_some, bind_some]
    cases hfirst : f ((octet.drop p).take 4) with
    | some a => exact ⟨a, rfl⟩
    | none =>
      cases k with
      | zero =>
        have hs : suiteAt octet p = some s := hs
        rw [suiteAt_of_le (by omega)] at hs
        exact absurd (some.inj hs ▸ hfirst) hf
      | succ k =>
        apply ih
        exact ⟨k, by omega, s, by rwa [Nat.add_right_comm, Nat.add_assoc, ← Nat.mul_succ], hf⟩

theorem findSuite_eq_none_iff (hp : p ≤ octet.length) :
    findSuite (fun s => some (f s)) octet p n = some none ↔
      p + 4 * n ≤ octet.length ∧ ¬FoundAt (f · ≠ none) octet p n := by
  constructor
  · intro h
    refine ⟨?_, fun hfound => ?_⟩
    · induction n generalizing p with
      | zero => exact hp
      | succ n ih =>
        obtain ⟨s, hs, hrest⟩ := bind_eq_some_iff.mp h
        rw [bind_some] at hrest
        split at hrest
        · next hfound =>
          rw [some.inj hrest] at hfound
          cases hfound
        · have hin := ih (le_of_suiteAt hs) hrest
          omega
    · obtain ⟨a, ha⟩ := findSuite_of_foundAt hfound
      rw [ha] at h
      cases h
  · rintro ⟨hin, hnot⟩
    induction n generalizing p with
    | zero => rfl
    | succ n ih =>
      have hs : suiteAt octet p = some ((octet.drop p).take 4) := suiteAt_of_le (by omega)
      have hfirst : f ((octet.drop p).take 4) = none := by
        by_contra hf
        exact hnot ⟨0, n.succ_pos, _, hs, hf⟩
      rw [findSuite, hs, bind_some, bind_some, hfirst]
      apply ih (by omega) (by omega)
      rintro ⟨k, hk, s, hs, hf⟩
      exact hnot ⟨k + 1, by omega, s, by rwa [Nat.mul_succ, ← Nat.add_assoc, Nat.add_right_comm],
        hf⟩

theorem findSuite_of_none :
    findSuite (fun _ => (none : Option (Option α))) octet p n = if n = 0 then some none else none := by
  cases n with
  | zero => rfl
  | succ n => cases hs : suiteAt octet p <;> simp [findSuite, hs]

end

/-! ## When the check is right -/

section

variable {cfg : ApConfig} {l : Layout} {octet : List (BitVec 8)} {pEntry : StaEntry}

/-- Where the list of AKM suites starts, its count first. -/
def akmAt (l : Layout) (octet : List (BitVec 8)) : Nat :=
  l.ucountAt + 2 + 4 * le16 octet l.ucountAt

/-- The count of AKM suites lies in the element; and there are none, or the access point has an
    element of this layout (or no cipher) and the suites lie in the station's, at least up to one
    that is the access point's. -/
def AkmInside (cfg : ApConfig) (l : Layout) (octet : List (BitVec 8)) : Prop :=
  akmAt l octet + 2 ≤ octet.length ∧
    (le16 octet (akmAt l octet) = 0 ∨ (cfg.Speaks l ∨ cfg.ucast l = []) ∧
      (akmAt l octet + 2 + 4 * le16 octet (akmAt l octet) ≤ octet.length ∨
        FoundAt (· ∈ cfg.akm l) octet (akmAt l octet + 2) (le16 octet (akmAt l octet))))

/-- The group suite is not the access point's; or the pairwise suites lie in the element and none
    is the access point's; or the AKM suites are inside. -/
def CountsInside (cfg : ApConfig) (l : Layout) (octet : List (BitVec 8)) : Prop :=
  (octet.drop l.groupAt).take 4 ≠ apSuite cfg l l.groupAt ∨
  akmAt l octet ≤ octet.length ∧
    ¬FoundAt (acceptUcast cfg l · ≠ none) octet (l.ucountAt + 2) (le16 octet l.ucountAt) ∨
  AkmInside cfg l octet

theorem ucountAt_le (l : Layout) : l.groupAt + 4 ≤ 18 ∧ l.ucountAt + 2 ≤ 18 := by
  cases l <;> decide

theorem lists_of_foundAt {offered : List Suite} {accept : Suite → Prop} {p : Nat}
    (hp : p + 2 ≤ octet.length) (h : FoundAt accept octet (p + 2) (le16 octet p))
    (hoffered : ∀ s, accept s → s ∈ offered) : Lists octet offered p := by
  obtain ⟨k, hk, s, hs, haccept⟩ := h
  exact ⟨_, if_pos hp, k, hk, s, hoffered s haccept, hs⟩

theorem countAt_ucount (hmin : 18 ≤ octet.length) :
    countAt octet l.ucountAt = some (le16 octet l.ucountAt) :=
  if_pos (Nat.le_trans (ucountAt_le l).2 hmin)

theorem rtmpCheckAUTH_eq (hmin : 18 ≤ octet.length) (hl : cfg.Speaks l ∨ cfg.ucast l = []) :
    rtmpCheckAUTH cfg l octet = (countAt octet (akmAt l octet)).bind fun count =>
      findSuite (fun s => some (if s ∈ cfg.akm l then some () else none)) octet
        (akmAt l octet + 2) count := by
  simp only [rtmpCheckAUTH, countAt_ucount hmin, bind_some, rtmpCheckAKM_of_speaks hl]
  rfl

theorem rtmpCheckAUTH_of_not_speaks (hmin : 18 ≤ octet.length)
    (hl : ¬(cfg.Speaks l ∨ cfg.ucast l = [])) :
    rtmpCheckAUTH cfg l octet = (countAt octet (akmAt l octet)).bind fun count =>
      if count = 0 then some none else none := by
  obtain ⟨hspeaks, hcipher⟩ := not_or.mp hl
  simp only [rtmpCheckAUTH, countAt_ucount hmin, bind_some,
    rtmpCheckAKM_of_not_speaks hspeaks hcipher, findSuite_of_none]
  rfl

theorem foundAt_akm {p n : Nat} :
    FoundAt (fun s => (if s ∈ cfg.akm l then some () else none) ≠ none) octet p n ↔
      FoundAt (· ∈ cfg.akm l) octet p n := by
  simp [FoundAt]

theorem offered_of_rtmpCheckAUTH (hmin : 18 ≤ octet.length)
    (h : rtmpCheckAUTH cfg l octet = some (some ())) :
    cfg.Speaks l ∧ cfg.ucast l ≠ [] ∧ Lists octet (cfg.akm l) (akmAt l octet) := by
  by_cases hl : cfg.Speaks l ∨ cfg.ucast l = []
  · rw [rtmpCheckAUTH_eq hmin hl] at h
    obtain ⟨count, hcount, hfind⟩ := bind_eq_some_iff.mp h
    obtain ⟨k, hk, s, hs, hakm⟩ := foundAt_akm.mp (foundAt_of_findSuite hfind)
    have hcipher : cfg.ucast l ≠ [] := by
      intro hnil
      rw [ApConfig.akm, if_pos hnil] at hakm
      cases hakm
    exact ⟨hl.resolve_right hcipher, hcipher, count, hcount, k, hk, s, hakm, hs⟩
  · rw [rtmpCheckAUTH_of_not_speaks hmin hl] at h
    obtain ⟨count, -, hfind⟩ := bind_eq_some_iff.mp h
    split at hfind <;> cases hfind

theorem rtmpCheckAUTH_reads_iff (hmin : 18 ≤ octet.length) :
    (∃ r, rtmpCheckAUTH cfg l octet = some r) ↔ AkmInside cfg l octet := by
  unfold AkmInside
  by_cases hin : akmAt l octet + 2 ≤ octet.length
  · have hcount : countAt octet (akmAt l octet) = some (le16 octet (akmAt l octet)) := if_pos hin
    rw [and_iff_right hin]
    by_cases hl : cfg.Speaks l ∨ cfg.ucast l = []
    · rw [rtmpCheckAUTH_eq hmin hl, hcount, bind_some, and_iff_right hl]
      constructor
      · rintro ⟨_ | a, hr⟩
        · exact .inr (.inl ((findSuite_eq_none_iff hin).mp hr).1)
        · exact .inr (.inr (foundAt_akm.mp (foundAt_of_findSuite hr)))
      · intro h
        by_cases hfound : FoundAt (· ∈ cfg.akm l) octet (akmAt l octet + 2)
            (le16 octet (akmAt l octet))
        · obtain ⟨a, ha⟩ := findSuite_of_foundAt (foundAt_akm.mpr hfound)
          exact ⟨_, ha⟩
        · refine ⟨none, (findSuite_eq_none_iff hin).mpr ⟨?_, mt foundAt_akm.mp hfound⟩⟩
          obtain hzero | hinside | hfound' := h
          · omega
          · exact hinside
          · exact absurd hfound' hfound
    · rw [rtmpCheckAUTH_of_not_speaks hmin hl, hcount, bind_some]
      by_cases hzero : le16 octet (akmAt l octet) = 0 <;> simp [hzero, hl]
  · have hcount : countAt octet (akmAt l octet) = none := if_neg hin
    constructor
    · rintro ⟨r, hr⟩
      unfold rtmpCheckAUTH at hr
      rw [countAt_ucount hmin, bind_some] at hr
      obtain ⟨n, hn, -⟩ := bind_eq_some_iff.mp hr
      exact absurd (hcount.symm.trans hn) (by simp)
    · rintro ⟨hin', -⟩
      exact absurd hin' hin

theorem validateSuites_success_iff (hmin : 18 ≤ octet.length) {e : StaEntry} :
    validateSuites cfg l pEntry octet = some (.success, e) ↔
      (octet.drop l.groupAt).take 4 = apSuite cfg l l.groupAt ∧
      e.authMode = recordedAuthMode cfg l ∧
      findSuite (fun s => some (acceptUcast cfg l s)) octet (l.ucountAt + 2)
        (le16 octet l.ucountAt) = some (some e.wepStatus) ∧
      rtmpCheckAUTH cfg l octet = some (some ()) := by
  have hgroupAt : suiteAt octet l.groupAt = some ((octet.drop l.groupAt).take 4) :=
    suiteAt_of_le (Nat.le_trans (ucountAt_le l).1 hmin)
  obtain ⟨authMode, wepStatus⟩ := e
  simp only [validateSuites, rtmpCheckMcast, rtmpCheckUcast, hgroupAt, countAt_ucount hmin,
    map_some, bind_some]
  by_cases hgroup : (octet.drop l.groupAt).take 4 = apSuite cfg l l.groupAt
  · rcases findSuite _ octet (l.ucountAt + 2) (le16 octet l.ucountAt) with _ | _ | w
    · simp [hgroup]
    · simp [hgroup]
    · rcases rtmpCheckAUTH cfg l octet with _ | _ | _ <;>
        simp [hgroup, eq_comm (b := authMode), eq_comm (b := wepStatus)]
  · simp [hgroup]

/-- The suites of an element of the layout are offered. -/
def LayoutOffered (cfg : ApConfig) (l : Layout) (octet : List (BitVec 8)) : Prop :=
  cfg.Speaks l ∧ (∃ s ∈ cfg.mcast l, suiteAt octet l.groupAt = some s) ∧
    Lists octet (cfg.ucast l) l.ucountAt ∧ Lists octet (cfg.akm l) (akmAt l octet)

theorem offered_of_success (hmin : 18 ≤ octet.length) {e : StaEntry}
    (h : validateSuites cfg l pEntry octet = some (.success, e)) : LayoutOffered cfg l octet := by
  obtain ⟨hgroup, -, hpairwise, hakm⟩ := (validateSuites_success_iff hmin).mp h
  obtain ⟨hspeaks, hcipher, hlists⟩ := offered_of_rtmpCheckAUTH hmin hakm
  refine ⟨hspeaks, ⟨_, ?_, suiteAt_of_le (Nat.le_trans (ucountAt_le l).1 hmin)⟩, ?_, hlists⟩
  · rw [hgroup, apSuite, rsnIeFor_of_speaks hspeaks, (reads_makeRsnIe hspeaks hcipher).1]
    exact List.mem_singleton_self _
  · exact lists_of_foundAt (Nat.le_trans (ucountAt_le l).2 hmin) (foundAt_of_findSuite hpairwise)
      fun s => mem_ucast_of_accept hspeaks hcipher

theorem validateSuites_iff (hmin : 18 ≤ octet.length) :
    (∃ r, validateSuites cfg l pEntry octet = some r ∧
      (r.1 = .success → LayoutOffered cfg l octet)) ↔ CountsInside cfg l octet := by
  have hgroupAt : suiteAt octet l.groupAt = some ((octet.drop l.groupAt).take 4) :=
    suiteAt_of_le (Nat.le_trans (ucountAt_le l).1 hmin)
  have hpairwiseAt : l.ucountAt + 2 ≤ octet.length := Nat.le_trans (ucountAt_le l).2 hmin
  have hsound : ∀ r, validateSuites cfg l pEntry octet = some r →
      r.1 = .success → LayoutOffered cfg l octet := by
    rintro ⟨status, e⟩ hr rfl
    exact offered_of_success hmin hr
  rw [exists_congr fun r => and_iff_left_of_imp (hsound r)]
  unfold CountsInside
  by_cases hgroup : (octet.drop l.groupAt).take 4 = apSuite cfg l l.groupAt
  · rw [or_iff_right (not_not.mpr hgroup)]
    simp only [validateSuites, rtmpCheckMcast, rtmpCheckUcast, hgroupAt, countAt_ucount hmin,
      map_some, bind_some, hgroup, decide_true, if_true]
    by_cases hfound : FoundAt (acceptUcast cfg l · ≠ none) octet (l.ucountAt + 2)
        (le16 octet l.ucountAt)
    · obtain ⟨w, hw⟩ := findSuite_of_foundAt hfound
      rw [hw, bind_some, isSome_some, if_pos rfl, or_iff_right (fun h => h.2 hfound),
        ← rtmpCheckAUTH_reads_iff hmin]
      constructor
      · rintro ⟨r, hr⟩
        obtain ⟨akm, hakm, -⟩ := map_eq_some_iff.mp hr
        exact ⟨akm, hakm⟩
      · rintro ⟨akm, hakm⟩
        exact ⟨_, by rw [hakm]; rfl⟩
    · rw [and_iff_left hfound]
      have hiff := findSuite_eq_none_iff (f := acceptUcast cfg l) (n := le16 octet l.ucountAt)
        hpairwiseAt
      rw [and_iff_left hfound] at hiff
      constructor
      · rintro ⟨r, hr⟩
        obtain ⟨pairwise, hpairwise, -⟩ := bind_eq_some_iff.mp hr
        cases pairwise with
        | none => exact .inl (hiff.mp hpairwise)
        | some w => exact absurd (foundAt_of_findSuite hpairwise) hfound
      · intro h
        have hin : akmAt l octet ≤ octet.length := h.elim id fun hakm => by
          have := hakm.1
          omega
        rw [hiff.mpr hin]
        exact ⟨_, rfl⟩
  · refine iff_of_true ?_ (.inl hgroup)
    simp only [validateSuites, rtmpCheckMcast, hgroupAt, map_some, bind_some, hgroup,
      decide_false, Bool.false_eq_true, if_false]
    exact ⟨_, rfl⟩

/-- An AES network with a shared key. -/
def aesPsk : ApConfig := ⟨.wpa2Psk, .aes, false, false, false, false, false⟩

/-- Group CCMP, one pairwise suite, CCMP, and 1000 AKM suites behind it. -/
def manyAkms : Element where
  eid := 48
  octet := [1, 0, 0x00, 0x0f, 0xac, 0x04, 1, 0, 0x00, 0x0f, 0xac, 0x04, 0xe8, 0x03, 0, 0, 0, 0]
  min_len := Nat.le_refl 18
  len_lt := by decide

end

/-! ## Honest stations -/

section

variable {cfg : ApConfig} {l : Layout} {octet : List (BitVec 8)} {s : Suite} {w : ApWepStatus}
  {pEntry : StaEntry}

/-- The suite of a cipher. -/
def cipherSuite (l : Layout) (w : ApWepStatus) : List Suite :=
  if w = .tkip then [ouiTkip l] else if w = .aes then [ouiCcmp l] else []

theorem acceptUcast_eq_some_iff (hspeaks : cfg.Speaks l) (hcipher : cfg.ucast l ≠ []) :
    acceptUcast cfg l s = some w ↔ s ∈ cfg.ucast l ∧ s ∈ cipherSuite l w := by
  have hne : ouiTkip l ≠ ouiCcmp l := by cases l <;> decide
  obtain ⟨-, hucast, -⟩ := reads_makeRsnIe hspeaks hcipher
  dsimp only [acceptUcast, apSuite]
  simp only [rsnIeFor_of_speaks hspeaks]
  generalize ((cfg.makeRsnIe l).drop (l.ucountAt + 2)).take 4 = first at *
  generalize ((cfg.makeRsnIe l).drop (l.ucountAt + 2 + 4)).take 4 = second at *
  unfold ApConfig.ucast at *
  cases hwep : cfg.wepStatus with
  | disabled | wep => simp [hwep] at hcipher
  | tkip =>
    obtain rfl : first = ouiTkip l := by simp_all
    by_cases hs : s = ouiTkip l <;> cases w <;> simp [cipherSuite, hs, hne]
  | aes =>
    obtain rfl : first = ouiCcmp l := by simp_all
    by_cases hs : s = ouiCcmp l <;> cases w <;> simp [cipherSuite, hs, hne.symm]
  | tkipAes =>
    simp only [hwep] at hucast
    cases htkip : cfg.tkipOn l with
    | false =>
      obtain rfl : first = ouiCcmp l := by simp_all
      by_cases hs : s = ouiCcmp l <;> cases w <;> simp [cipherSuite, hs, hne.symm]
    | true =>
      obtain rfl : first = ouiTkip l := by cases haes : cfg.aesOn l <;> simp_all
      cases haes : cfg.aesOn l with
      | false => by_cases hs : s = ouiTkip l <;> cases w <;> simp [cipherSuite, hs, hne]
      | true =>
        obtain rfl : second = ouiCcmp l := by simp_all
        by_cases hs : s = ouiTkip l <;> by_cases hs' : s = ouiCcmp l <;> cases w <;>
          simp [cipherSuite, hs, hs', hne, hne.symm]

theorem exists_cipherSuite (h : s ∈ cfg.ucast l) : ∃ w, s ∈ cipherSuite l w := by
  have hcases : s = ouiTkip l ∨ s = ouiCcmp l := by
    obtain ⟨-, hu⟩ | ⟨-, hu⟩ | ⟨-, hu⟩ | ⟨-, hu⟩ := cipher_cases (List.ne_nil_of_mem h) <;>
      rw [hu] at h <;> simp_all
  obtain rfl | rfl := hcases
  · exact ⟨.tkip, List.mem_singleton_self _⟩
  · exact ⟨.aes, List.mem_singleton_self _⟩

theorem foundAt_of_lists {offered : List Suite} {p : Nat} (h : Lists octet offered p) :
    FoundAt (· ∈ offered) octet (p + 2) (le16 octet p) := by
  obtain ⟨count, hcount, k, hk, s, hoffered, hs⟩ := h
  obtain rfl := some.inj (ite_none_right_eq_some.mp hcount).2
  exact ⟨k, hk, s, hs, hoffered⟩

theorem success_of_offered (hmin : 18 ≤ octet.length) (h : LayoutOffered cfg l octet) :
    ∃ e, validateSuites cfg l pEntry octet = some (.success, e) := by
  obtain ⟨hspeaks, ⟨s, hs, hgroup⟩, hpairwise, hakm⟩ := h
  have hfound : FoundAt (acceptUcast cfg l · ≠ none) octet (l.ucountAt + 2)
      (le16 octet l.ucountAt) := by
    obtain ⟨k, hk, t, ht, hoffered⟩ := foundAt_of_lists hpairwise
    refine ⟨k, hk, t, ht, ?_⟩
    obtain ⟨w, hw⟩ := exists_cipherSuite hoffered
    rw [(acceptUcast_eq_some_iff hspeaks (List.ne_nil_of_mem hoffered)).mpr ⟨hoffered, hw⟩]
    exact some_ne_none w
  obtain ⟨w, hw⟩ := findSuite_of_foundAt hfound
  obtain ⟨u, hu⟩ := findSuite_of_foundAt (foundAt_akm.mpr (foundAt_of_lists hakm))
  obtain ⟨count, hcount, -⟩ := hakm
  obtain ⟨-, -, -, -, t, ht, -⟩ := hpairwise
  have hauth : rtmpCheckAUTH cfg l octet = some (some ()) := by
    rw [rtmpCheckAUTH_eq hmin (.inl hspeaks), hcount, bind_some,
      ← some.inj (ite_none_right_eq_some.mp hcount).2]
    exact hu
  refine ⟨⟨_, w⟩, (validateSuites_success_iff hmin).mpr ⟨?_, rfl, hw, hauth⟩⟩
  rw [(reads_makeRsnIe hspeaks (List.ne_nil_of_mem ht)).1] at hs
  rw [apSuite, rsnIeFor_of_speaks hspeaks, ← List.mem_singleton.mp hs]
  exact some.inj (ite_none_right_eq_some.mp hgroup).2

/-- **Honest stations**: an element of fewer than 254 octets is accepted exactly if the suites that
    it lists are offered by the access point, whatever else it lists, and the cipher that is
    recorded for the station is offered and is one that it lists itself. -/
theorem apValidateRSNIE_success_iff (cfg : ApConfig) (el : Element) (pEntry : StaEntry)
    (hlen : el.octet.length < 254) :
    ((∃ e, apValidateRSNIE cfg pEntry el = some (.success, e)) ↔ SuitesOffered cfg el) ∧
    ∀ e, apValidateRSNIE cfg pEntry el = some (.success, e) →
      ∃ l, el.layout = some l ∧ e.authMode = recordedAuthMode cfg l ∧
        ∃ s ∈ cipherSuite l e.wepStatus, s ∈ cfg.ucast l ∧ Lists el.octet [s] l.ucountAt := by
  have hmin := el.min_len
  have hzero : BitVec.ofNat 8 (el.octet.length + 2) ≠ 0 := by bv_omega
  have heq : ¬el.octet.length + 2 ≠ (BitVec.ofNat 8 (el.octet.length + 2)).toNat := by bv_omega
  unfold apValidateRSNIE
  simp only [if_neg hzero, if_neg heq]
  cases hlayout : el.layout with
  | none => simp [SuitesOffered, hlayout]
  | some l =>
    simp only [SuitesOffered, hlayout, Option.some.injEq, exists_eq_left']
    refine ⟨⟨fun ⟨e, he⟩ => offered_of_success hmin he, fun h => success_of_offered hmin h⟩, ?_⟩
    intro e he
    obtain ⟨-, hmode, hpairwise, hakm⟩ := (validateSuites_success_iff hmin).mp he
    obtain ⟨hspeaks, hcipher, -⟩ := offered_of_rtmpCheckAUTH hmin hakm
    obtain ⟨k, hk, s, hs, haccept⟩ := found_of_findSuite hpairwise
    obtain ⟨hoffered, hsuite⟩ := (acceptUcast_eq_some_iff hspeaks hcipher).mp haccept
    exact ⟨hmode, s, hsuite, hoffered, _, if_pos (Nat.le_trans (ucountAt_le l).2 hmin), k, hk, s,
      List.mem_singleton_self s, hs⟩

/-- Group CCMP, pairwise CCMP and a shared key. -/
def oneAkm : Element where
  eid := 48
  octet := [1, 0, 0x00, 0x0f, 0xac, 0x04, 1, 0, 0x00, 0x0f, 0xac, 0x04, 1, 0, 0x00, 0x0f, 0xac, 0x02,
    0, 0]
  min_len := by decide
  len_lt := by decide

theorem suitesOffered_oneAkm : SuitesOffered aesPsk oneAkm :=
  (apValidateRSNIE_success_iff aesPsk oneAkm ⟨.wpa2Psk, .aes⟩ (by decide)).1.mp
    ⟨⟨.wpa2Psk, .aes⟩, by decide +kernel⟩

end

end RalinkSdk.Wpa.Assoc
