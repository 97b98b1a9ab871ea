import RalinkSdk.Wpa.Steps

/-!
# Messages that the driver itself has built

A message of `ConstructEapolMsg` passes the checks in front of the branches, takes the branch that
is meant for it, and its MIC verifies under the PTK it was built with.
-/

namespace RalinkSdk.Wpa

open Lib Crypt

variable (c : Crypto)

/-! ## Branches -/

/-- The branch that is meant for a message. -/
def MsgType.action : MsgType → Action
  | pair1 => .pairMsg1
  | pair2 => .pairMsg2
  | pair3 => .pairMsg3
  | pair4 => .pairMsg4
  | group1 => .groupMsg1
  | group2 => .groupMsg2

theorem actionOf_constructEapolMsg (m : MsgParams)
    (hdata : m.msgType = .pair2 → (m.builtKeyData c).length % 2 ^ 16 ≠ 0) :
    actionOf (constructEapolMsg c m) = some m.msgType.action := by
  have hlen4 : m.msgType = .pair4 → BitVec.ofNat 16 (m.builtKeyData c).length = 0 := by
    intro h
    simp [MsgParams.builtKeyData, constructEapolKeyData, h]
  have hlen2 : m.msgType = .pair2 → BitVec.ofNat 16 (m.builtKeyData c).length ≠ 0 := by
    intro h hzero
    have hnat := congrArg BitVec.toNat hzero
    rw [BitVec.toNat_ofNat] at hnat
    exact hdata h hnat
  unfold actionOf
  rw [constructEapolMsg_keyInfo, constructEapolMsg_keyDataLen]
  cases hm : m.msgType with
  | pair1 =>
    cases hw : m.wpa2 <;>
      simp [keyInfoOf, hm, hw, MsgType.num, MsgType.forSupplicant, MsgType.action]
  | pair2 =>
    cases hw : m.wpa2 <;>
      simp [keyInfoOf, hm, hw, MsgType.num, MsgType.forSupplicant, MsgType.action,
        show ¬ BitVec.ofNat 16 (m.builtKeyData c).length = 0#16 from hlen2 hm]
  | pair3 =>
    cases hw : m.wpa2 <;>
      simp [keyInfoOf, hm, hw, MsgType.num, MsgType.forSupplicant, MsgType.action]
  | pair4 =>
    cases hw : m.wpa2 <;>
      simp [keyInfoOf, hm, hw, MsgType.num, MsgType.forSupplicant, MsgType.action,
        show BitVec.ofNat 16 (m.builtKeyData c).length = 0#16 from hlen4 hm]
  | group1 =>
    cases hw : m.wpa2 <;>
      simp [keyInfoOf, hm, hw, MsgType.num, MsgType.forSupplicant, MsgType.action]
  | group2 =>
    cases hw : m.wpa2 <;>
      simp [keyInfoOf, hm, hw, MsgType.num, MsgType.forSupplicant, MsgType.action]

/-- A packet in the frame that carries it. -/
def frameOf (a : MacAddr) (p : EapolPacket) : Elem := ⟨a, headerLen + (p.bodyLen.toNat + 4), p⟩

theorem admitted_frameOf (p : EapolPacket) (a : MacAddr) (e : Entry)
    (hkind : e.kind = .client ∨ e.kind = .apcli) (hwpa : e.authMode.isWpa = true)
    (hpro : p.proVer = 1) (htype : p.type = 0xfe ∨ p.type = 0x02)
    (hver : (e.wepStatus = .tkip → p.keyInfo.keyDescVer = keyDescTkip) ∧
      (e.wepStatus = .aes → p.keyInfo.keyDescVer = keyDescAes))
    (hassoc : e.assoc = true) (hstate : WpaState.initPsk.num ≤ e.wpaState.num) :
    admitted e (frameOf a p) = true := by
  have hlen : p.bodyLen.toNat + 4 ≤ (headerLen + (p.bodyLen.toNat + 4) + 2 ^ 32 - headerLen) % 2 ^ 32 := by
    have hbound := p.bodyLen.isLt
    omega
  have htkip : ¬ (e.wepStatus = .tkip ∧ p.keyInfo.keyDescVer ≠ keyDescTkip) := fun h =>
    h.2 (hver.1 h.1)
  have haes : ¬ (e.wepStatus = .aes ∧ p.keyInfo.keyDescVer ≠ keyDescAes) := fun h =>
    h.2 (hver.2 h.1)
  have htkip' : (decide (e.wepStatus = .tkip) && decide (p.keyInfo.keyDescVer ≠ keyDescTkip)) =
      false := by
    rw [← Bool.decide_and, decide_eq_false htkip]
  have haes' : (decide (e.wepStatus = .aes) && decide (p.keyInfo.keyDescVer ≠ keyDescAes)) =
      false := by
    rw [← Bool.decide_and, decide_eq_false haes]
  unfold admitted frameOf
  dsimp only
  rw [← Bool.decide_or, decide_eq_true hkind, hwpa, decide_eq_true hlen, decide_eq_true hpro,
    ← Bool.decide_or (p.type = 0xfe), decide_eq_true htype, htkip', haes', hassoc,
    decide_eq_true hstate]
  rfl

theorem admitted_constructEapolMsg (m : MsgParams) (a : MacAddr) (e : Entry)
    (hkind : e.kind = .client ∨ e.kind = .apcli) (hwpa : e.authMode.isWpa = true)
    (hver : (e.wepStatus = .tkip → keyDescVerOf m.wepStatus m.groupCipher = keyDescTkip) ∧
      (e.wepStatus = .aes → keyDescVerOf m.wepStatus m.groupCipher = keyDescAes))
    (hassoc : e.assoc = true) (hstate : WpaState.initPsk.num ≤ e.wpaState.num) :
    admitted e (frameOf a (constructEapolMsg c m)) = true := by
  have hkeyVer : (constructEapolMsg c m).keyInfo.keyDescVer =
      keyDescVerOf m.wepStatus m.groupCipher := by
    rw [constructEapolMsg_keyInfo]
    rfl
  have htype : (constructEapolMsg c m).type = 0xfe ∨ (constructEapolMsg c m).type = 0x02 := by
    rw [constructEapolMsg_type]
    split_ifs
    · exact .inr rfl
    · exact .inl rfl
  rw [← hkeyVer] at hver
  exact admitted_frameOf _ a e hkind hwpa (constructEapolMsg_proVer c m) htype hver hassoc hstate

/-! ## Checks -/

section

variable {m : MsgParams} {e : Entry} {env : Env}

theorem messageOk_answer {msgType : MsgType} (htype : msgType.forSupplicant = false)
    (hm : m.msgType ≠ .pair1) (hptk : e.ptk = m.ptk) (hcounter : m.rCounter = e.rCounter)
    (hmem : env.keyData.isSome = true) :
    messageOk c e msgType (constructEapolMsg c m) env = true := by
  have hmic := micOk_constructEapolMsg c m hm
  simp [messageOk, replayOk, htype, hptk, hcounter, hmem, hmic]

theorem messageOk_request {msgType : MsgType} (htype : msgType.forSupplicant = true)
    (hm : m.msgType ≠ .pair1) (hptk : e.ptk = m.ptk) (hcounter : e.rCounter < m.rCounter)
    (hmem : env.keyData.isSome = true) :
    messageOk c e msgType (constructEapolMsg c m) env = true := by
  have hmic := micOk_constructEapolMsg c m hm
  simp [messageOk, replayOk, htype, hptk, hcounter, hmem, hmic]

end

theorem minMsgLen_le_frameOf (m : MsgParams) (a : MacAddr)
    (hlen : (m.builtKeyData c).length < 2 ^ 15) :
    minMsgLen ≤ (frameOf a (constructEapolMsg c m)).msgLen := by
  have hbody : (constructEapolMsg c m).bodyLen.toNat = 95 + (m.builtKeyData c).length := by
    rw [constructEapolMsg_bodyLen, BitVec.toNat_ofNat]
    omega
  simp only [frameOf, minMsgLen, hbody]
  omega

end RalinkSdk.Wpa
