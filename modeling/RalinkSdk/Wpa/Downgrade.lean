import RalinkSdk.Wpa.Honest

/-!
# The information element in the handshake

Messages 2 and 3 carry the RSN or WPA element of their sender, so that a forged beacon or
association shows.  `RTMPParseEapolKeyData` does not look at it: `RTMPCheckRSNIE` is not called, for
message 2 and for message 3 of WPA the parser returns at once, and in message 3 of WPA2 the element
is passed like any other.
-/

namespace RalinkSdk.Wpa

open Crypt

variable (c : Crypto)

/-- An element with its identifier and its length. -/
def elementBytes (x : Byte × List Byte) : List Byte := x.1 :: BitVec.ofNat 8 x.2.length :: x.2

/-- One of the elements of the key data is the one that was recorded. -/
def ContainsElement (rsnIe text : List Byte) : Prop :=
  ∃ (front : List (Byte × List Byte)) (rest : List Byte),
    text = front.flatMap elementBytes ++ rsnIe ++ rest

/-- The key data of message 2 or 3, decrypted where the message has it encrypted. -/
def keyDataText (e : Entry) (msgType : MsgType) (p : EapolPacket) : List Byte :=
  if msgType = .pair3 ∧ e.authMode.isWpa2 then decryptKeyData c e p
  else p.keyData.take p.keyDataLen.toNat

/-- `PeerWpaMessageSanity` returns `TRUE`. -/
def SanityTrue (s : Supplicant) (e : Entry) (msgType : MsgType) (p : EapolPacket) (env : Env) :
    Prop :=
  ∃ s', supplicantSanity c s e msgType p env = .accepted s'

/-- The group key of message 3 of WPA2 is found and can be installed. -/
def GroupKeyTaken (s : Supplicant) (e : Entry) (p : EapolPacket) (env : Env) : Prop :=
  let text := decryptKeyData c e p
  ∃ s', rtmpParseEapolKeyData s (memWith text (env.keyData.getD fun _ => 0)) text.length 0 true =
    .accepted s'

/-- Memory, replay counter, MIC or group key are not as they have to be. -/
def OtherwiseWrong (s : Supplicant) (e : Entry) (msgType : MsgType) (p : EapolPacket) (env : Env) :
    Prop :=
  env.keyData = none ∨ replayOk e msgType p = false ∨ micOk c e.ptk p = false ∨
    (msgType = .pair3 ∧ e.authMode.isWpa2 = true ∧ p.keyDataLen ≠ 0 ∧ ¬ GroupKeyTaken c s e p env)

theorem sanityTrue_iff (s : Supplicant) (e : Entry) {msgType : MsgType} (p : EapolPacket)
    (env : Env) (hmsg : msgType = .pair2 ∨ msgType = .pair3) :
    SanityTrue c s e msgType p env ↔ ¬ OtherwiseWrong c s e msgType p env := by
  have hmic : (messageOk c e msgType p env = true) ↔
      env.keyData ≠ none ∧ replayOk e msgType p = true ∧ micOk c e.ptk p = true := by
    rcases hmsg with rfl | rfl <;>
      simp [messageOk, and_assoc, Option.isSome_iff_ne_none]
  unfold SanityTrue OtherwiseWrong supplicantSanity
  cases hok : messageOk c e msgType p env with
  | false =>
    rw [if_pos rfl]
    refine iff_of_false (by rintro ⟨s', h⟩; cases h) (not_not_intro ?_)
    have hnot : ¬ (env.keyData ≠ none ∧ replayOk e msgType p = true ∧ micOk c e.ptk p = true) := by
      rw [← hmic, hok]
      simp
    by_contra hall
    simp only [not_or, Bool.not_eq_false] at hall
    exact hnot ⟨hall.1, hall.2.1, hall.2.2.1⟩
  | true =>
    obtain ⟨hmem, hreplay, hmic⟩ := hmic.mp hok
    rw [if_neg (by simp), hreplay, hmic]
    by_cases hlen : p.keyDataLen = 0
    · rw [if_pos hlen]
      exact iff_of_true ⟨s, rfl⟩ (by simp [hmem, hlen])
    · rw [if_neg hlen]
      by_cases hwpa2 : msgType = .pair3 ∧ e.authMode.isWpa2 = true
      · obtain ⟨rfl, hwpa2⟩ := hwpa2
        rw [if_pos (.inl ⟨rfl, hwpa2⟩)]
        have hpos : ¬ p.keyDataLen = 0#16 := hlen
        simp [hmem, hpos, hwpa2, GroupKeyTaken]
      · have hgroup : msgType ≠ .group1 := by rintro rfl; simp at hmsg
        rw [if_neg (not_or.mpr ⟨hwpa2, hgroup⟩)]
        refine iff_of_true ⟨s, rfl⟩ ?_
        simp only [hmem, Bool.true_eq_false, false_or]
        exact fun h => hwpa2 ⟨h.1, h.2.1⟩

/-- Message 2 of a station, without an element. -/
def bareMsg2 : MsgParams where
  msgType := .pair2
  wpa2 := true
  wepStatus := .aes
  groupCipher := .aes
  rCounter := 0
  ptk := []
  defaultKeyIdx := 0
  keyNonce := 0
  txRsc := 0
  gtk := []
  rsnIe := []

theorem bareMsg2_sane : SanityTrue c noApCli (homeStation 2 .wpa2Psk) .pair2
    (constructEapolMsg c bareMsg2) (homeEnv 0) := by
  have hmic : micOk c (homeStation 2 .wpa2Psk).ptk (constructEapolMsg c bareMsg2) = true :=
    micOk_constructEapolMsg c bareMsg2 (by decide)
  apply (sanityTrue_iff c _ _ _ _ (.inl rfl)).mpr
  rintro (hmem | hreplay | hbad | ⟨hpair3, -⟩)
  · cases hmem
  · rw [replayOk, constructEapolMsg_replayCounter] at hreplay
    cases hreplay
  · rw [hmic] at hbad
    cases hbad
  · cases hpair3

end RalinkSdk.Wpa
