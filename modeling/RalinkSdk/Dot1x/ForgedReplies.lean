import RalinkSdk.Dot1x.DaemonReplies
import RalinkSdk.Radius.Msg

/-!
# Forged replies

A reply is matched with a pending request by its identifier, which anybody can guess.  Whether it
comes from the server is found out by the handler, when the request has left the list already, and
the handler cannot put it back: a datagram that fails authentication takes the request with it.

## Source

`user/802.1x/radius_client.c`, `ieee802_1x.c`, `radius.c`.
-/

namespace RalinkSdk.Dot1x

open Lib Option List

/-! ## Datagrams -/

/-- The size of the buffer that a datagram is read into. -/
def receiveBufLen : Nat := 3000

def radiusCodeOf (code : BitVec 8) : RadiusCode :=
  if code = 2 then .accessAccept
  else if code = 3 then .accessReject
  else if code = 11 then .accessChallenge
  else .other

/-- The digests, and the allocations of `Radius_msg_parse`. -/
structure ReceiveEnv where
  md5 : List (BitVec 8) → Buf Radius.md5MacLen
  hmacMd5 : List (BitVec 8) → List (BitVec 8) → Buf Radius.md5MacLen
  addr : Radius.Addr
  parse : Radius.Mem
  grows : Nat → Bool

def codeAndIdentifier (m : Radius.RadiusMsg) : Option (BitVec 8 × BitVec 8) := do
  let head ← m.read m.addr 2
  let code ← head[0]?
  let identifier ← head[1]?
  some (code, identifier)

namespace Daemon

variable (d : Daemon)

/-- What `ieee802_1x_receive_auth` finds out about a message, for a request with this secret and
    this authenticator.  A message is not verified when no station waits for it, and neither is an
    Access-Reject without a Message-Authenticator and an EAP-Message. -/
def replyOf (env : ReceiveEnv) (m : Radius.RadiusMsg) (secret : List (BitVec 8))
    (authenticator : Buf Radius.md5MacLen) : Option RadiusReply := do
  let (code, identifier) ← codeAndIdentifier m
  let messageAuthenticator ← m.radiusMsgGetAttr Radius.radiusAttrMessageAuthenticator 0
  let eapMessage ← m.radiusMsgGetAttr Radius.radiusAttrEapMessage 0
  let bare := messageAuthenticator.isNone && eapMessage.isNone
  if (d.apGetStaRadiusIdentifier identifier).isNone ||
      (radiusCodeOf code == .accessReject && bare) then
    some ⟨identifier, radiusCodeOf code, bare, false, none, false⟩
  else do
    let (m, verified) ← m.radiusMsgVerify env.md5 env.hmacMd5 secret (some authenticator)
    let sessionTimeout ← m.radiusMsgGetAttrInt32 Radius.radiusAttrSessionTimeout
    let terminationAction ← m.radiusMsgGetAttrInt32 Radius.radiusAttrTerminationAction
    some ⟨identifier, radiusCodeOf code, bare, verified, sessionTimeout,
      terminationAction == some 1⟩

/-- `Radius_client_receive` for the bytes `recv` returns, when `authenticator id` is in the header
    of the pending request with the identifier `id`. -/
def radiusClientReceiveData (env : ReceiveEnv) (authenticator : BitVec 8 → Buf Radius.md5MacLen)
    (data : List (BitVec 8)) (now : Nat) : Option Daemon :=
  if receiveBufLen ≤ data.length then some d
  else do
    match ← Radius.radiusMsgParse data env.addr env.parse env.grows with
    | none => some d
    | some m => do
      let (_, identifier) ← codeAndIdentifier m
      match ← RadiusClient.findRequest RadiusClient.walkLimit d.radius .radiusAuth identifier
          d.radius.msgs none with
      | none => some d
      | some (_, e, _) => do
        let reply ← d.replyOf env m e.sharedSecret (authenticator identifier)
        d.radiusClientReceive reply now

/-- **A forged reply**: it is parsed as `m` and matches the pending request `e` at `a`, but
    `Radius_msg_verify` does not accept it, or its code is none of a reply. -/
structure Forged (env : ReceiveEnv) (authenticator : BitVec 8 → Buf Radius.md5MacLen)
    (data : List (BitVec 8)) (m : Radius.RadiusMsg) (identifier : BitVec 8) (a : Nat)
    (e : RadiusMsgList) : Prop where
  short : data.length < receiveBufLen
  parsed : Radius.radiusMsgParse data env.addr env.parse env.grows = some (some m)
  header : ∃ code, codeAndIdentifier m = some (code, identifier) ∧
    (radiusCodeOf code = .other ∨
      ∀ m', m.radiusMsgVerify env.md5 env.hmacMd5 e.sharedSecret (some (authenticator identifier)) ≠
        some (m', true))
  pending : ∃ prev, RadiusClient.findRequest RadiusClient.walkLimit d.radius .radiusAuth identifier
    d.radius.msgs none = some (some (a, e, prev))

/-- The datagram is dropped: the pending requests and the stations stay as they are. -/
def Ignores (env : ReceiveEnv) (authenticator : BitVec 8 → Buf Radius.md5MacLen)
    (data : List (BitVec 8)) (now : Nat) : Prop :=
  ∃ d', d.radiusClientReceiveData env authenticator data now = some d' ∧
    d'.radius = d.radius ∧ d'.staList = d.staList

/-- The request at `a` has left the list, and no reply with its identifier is matched any more. -/
structure Lost (d' : Daemon) (a : Nat) (identifier : BitVec 8) : Prop where
  removed : ∃ front rest, d.radius.entries = front ++ a :: rest ∧ d'.radius.entries = front ++ rest
  unanswerable : ∀ (reply : RadiusReply) (now : Nat), reply.identifier = identifier →
    d'.radiusClientReceive reply now = some d'

/-- A station waits for the reply, and it is an Access-Reject that is accepted unverified. -/
def AcceptsBare (env : ReceiveEnv) (authenticator : BitVec 8 → Buf Radius.md5MacLen)
    (m : Radius.RadiusMsg) (identifier : BitVec 8) (e : RadiusMsgList) : Prop :=
  (d.apGetStaRadiusIdentifier identifier).isSome ∧
    ∃ reply, d.replyOf env m e.sharedSecret (authenticator identifier) = some reply ∧
      reply.code = .accessReject ∧ reply.bare = true

end Daemon

/-! ## The list -/

namespace RadiusClient

variable {c c' : RadiusClient} {a : Nat} {e : RadiusMsgList} {prev : Option Nat}

theorem relink_numMsgs {q : Option Nat} (h : c.relink prev q = some c') :
    c'.numMsgs = c.numMsgs := by
  cases prev with
  | none =>
    obtain rfl := some.inj h
    rfl
  | some p =>
    obtain ⟨e, -, hstore⟩ := bind_eq_some_iff.mp h
    unfold store at hstore
    split at hstore
    · obtain rfl := some.inj hstore
      rfl
    · cases hstore

theorem takeRequest_numMsgs {msgType : RadiusType} {id : BitVec 8} {e' : Option RadiusMsgList}
    (hfound : findRequest walkLimit c msgType id c.msgs none = some (some (a, e, prev)))
    (htake : c.takeRequest msgType id = some (c', e')) :
    c'.numMsgs = c.numMsgs - 1 ∧ e' = some e := by
  simp only [takeRequest, hfound, bind_eq_bind, bind_some] at htake
  obtain ⟨c₁, hrelink, htake⟩ := bind_eq_some_iff.mp htake
  obtain ⟨c₂, hfree, htake⟩ := bind_eq_some_iff.mp htake
  obtain ⟨rfl, rfl⟩ := Prod.mk.inj (some.inj htake)
  unfold radiusClientMsgFree at hfree
  split at hfree
  · obtain rfl := some.inj hfree
    exact ⟨congrArg (· - 1) (relink_numMsgs hrelink), rfl⟩
  · cases hfree

/-- **Answering a request** takes it out of the list, and leaves no other with its identifier. -/
theorem Ok.takeRequest_removes (h : Ok c) {msgType : RadiusType} {id : BitVec 8}
    (hfound : findRequest walkLimit c msgType id c.msgs none = some (some (a, e, prev))) :
    ∃ c' front rest, c.takeRequest msgType id = some (c', some e) ∧
      c.entries = front ++ a :: rest ∧ c'.entries = front ++ rest ∧
      findRequest walkLimit c' msgType id c'.msgs none = some none := by
  have hhead : c.msgs = c.entries.head? := Chain.head h.pending.chain
  have h₀ : Pending c ([] ++ c.entries) := h.pending
  rcases findRequest_spec msgType id h₀ h.lt_walkLimit with
    hnone | ⟨front, b, e', rest, hsplit, he, hid, hspec⟩
  · rw [← hhead, getLast?_nil, hfound] at hnone
    cases hnone
  rw [← hhead, getLast?_nil, hfound] at hspec
  obtain ⟨rfl, rfl, rfl⟩ : a = b ∧ e = e' ∧ prev = front.getLast? := by simpa using hspec
  rw [nil_append] at hsplit
  have hpend : Pending c (front ++ a :: rest) := hsplit ▸ h.pending
  obtain ⟨c₁, c₂, hrelink, hfree, hnum, hun⟩ := hpend.unlink he
  have hfree' : RadiusClient.radiusClientMsgFree { c₁ with numMsgs := c₁.numMsgs - 1 } a =
      some { c₂ with numMsgs := c₂.numMsgs - 1 } := by
    rw [hun.numMsgs_eq.trans hnum.symm]
    exact free_setNumMsgs hfree _
  have htake : c.takeRequest msgType id = some ({ c₂ with numMsgs := c₂.numMsgs - 1 }, some e) := by
    simp only [RadiusClient.takeRequest, hfound, bind_eq_bind, bind_some, hrelink, hfree']
  -- the entries that are left
  have hfew := hun.fewer
  have hlen : (front ++ rest).length ≤ radiusClientMaxEntries := by
    have hle := h.length_le.trans h.numMsgs_le
    rw [hsplit] at hle
    simp only [length_append, length_cons] at hle ⊢
    omega
  have hentries : RadiusClient.entries { c₂ with numMsgs := c₂.numMsgs - 1 } = front ++ rest :=
    hfew.pending.entries_eq hlen
  refine ⟨_, front, rest, htake, hsplit, hentries, ?_⟩
  -- a second request with the identifier would have been there before
  have hpend' : Pending { c₂ with numMsgs := c₂.numMsgs - 1 } ([] ++ (front ++ rest)) :=
    hfew.pending
  have hlimit : (front ++ rest).length < walkLimit := hlen.trans_lt (by decide)
  have hhead' : c₂.msgs = (front ++ rest).head? := Chain.head hfew.pending.chain
  rcases findRequest_spec msgType id hpend' hlimit with
    hnone | ⟨front', b, e', rest', hsplit', he', hid', -⟩
  · rw [← hhead', getLast?_nil] at hnone
    exact hnone
  · exfalso
    have hb : b ∈ front ++ rest := by
      rw [nil_append] at hsplit'
      rw [hsplit']
      simp
    apply hpend.ident_ne hb
    have hmsg : c₂.msgAt b = c.msgAt b := hun.msgAt_eq b hb
    have hident : c₂.identAt b = some id := by
      have he'' : c₂.heap b = some e' := he'
      rw [identAt, msgAt, he'']
      simp [hid']
    have hident' : c.identAt b = some id := by
      rw [identAt, ← hmsg]
      exact hident
    rw [hident', identAt, msgAt, he]
    simp [hid]

end RadiusClient

/-! ## Stations -/

namespace Daemon

variable {d : Daemon} {env : ReceiveEnv} {authenticator : BitVec 8 → Buf Radius.md5MacLen}
  {data : List (BitVec 8)} {m : Radius.RadiusMsg} {identifier : BitVec 8} {a : Nat}
  {e : RadiusMsgList}

theorem receiveAuth_radius (d : Daemon) (reply : RadiusReply) (now : Nat) :
    (d.receiveAuth reply now).radius = d.radius := (holdsLess_receiveAuth reply now).radius_eq

theorem radiusClientReceive_of_none {reply : RadiusReply} (now : Nat)
    (h : RadiusClient.findRequest RadiusClient.walkLimit d.radius .radiusAuth reply.identifier
      d.radius.msgs none = some none) : d.radiusClientReceive reply now = some d := by
  simp [radiusClientReceive, RadiusClient.takeRequest, h]

theorem setRadiusIdentifier_staList_ne {s : StaInfo} {id : BitVec 8} (hs : s ∈ d.staList)
    (hid : s.radiusIdentifier = some id) :
    (d.setRadiusIdentifier s.sta none).staList ≠ d.staList := by
  intro heq
  obtain ⟨i, hi, rfl⟩ := getElem_of_mem hs
  have hsame := getElem_of_eq heq.symm hi
  have hclear : (d.staList[i]).radiusIdentifier = none := by
    rw [hsame]
    simp [setRadiusIdentifier]
  rw [hid] at hclear
  cases hclear

theorem receiveAuth_staList_iff {reply : RadiusReply} (hcode : reply.code = .accessReject)
    (now : Nat) : (d.receiveAuth reply now).staList = d.staList ↔ d.deliverTo reply = none := by
  unfold receiveAuth
  cases hdeliver : d.deliverTo reply with
  | none => exact iff_of_true rfl rfl
  | some s =>
    have hfound : d.apGetStaRadiusIdentifier reply.identifier = some s :=
      (filter_eq_some_iff.mp hdeliver).1
    have hmem : s ∈ d.staList := mem_of_find?_eq_some hfound
    have hid : s.radiusIdentifier = some reply.identifier := by
      simpa using find?_some hfound
    simp only [hcode]
    exact iff_of_false (setRadiusIdentifier_staList_ne hmem hid) (by simp)

theorem replyOf_spec {secret : List (BitVec 8)} {auth : Buf Radius.md5MacLen} {code : BitVec 8}
    {reply : RadiusReply} (hheader : codeAndIdentifier m = some (code, identifier))
    (hreply : d.replyOf env m secret auth = some reply) :
    reply.identifier = identifier ∧ reply.code = radiusCodeOf code ∧
      (reply.verified = true →
        ∃ m', m.radiusMsgVerify env.md5 env.hmacMd5 secret (some auth) = some (m', true)) := by
  simp only [replyOf, hheader, bind_eq_bind, bind_some] at hreply
  obtain ⟨messageAuthenticator, -, hreply⟩ := bind_eq_some_iff.mp hreply
  obtain ⟨eapMessage, -, hreply⟩ := bind_eq_some_iff.mp hreply
  split at hreply
  · obtain rfl := some.inj hreply
    exact ⟨rfl, rfl, by simp⟩
  · obtain ⟨⟨m', verified⟩, hverify, hreply⟩ := bind_eq_some_iff.mp hreply
    obtain ⟨sessionTimeout, -, hreply⟩ := bind_eq_some_iff.mp hreply
    obtain ⟨terminationAction, -, hreply⟩ := bind_eq_some_iff.mp hreply
    obtain rfl := some.inj hreply
    refine ⟨rfl, rfl, fun hverified => ⟨m', ?_⟩⟩
    rw [hverify]
    exact congrArg (fun b => some (m', b)) hverified

variable (h : d.Forged env authenticator data m identifier a e)

include h

theorem Forged.receive_eq (now : Nat) : d.radiusClientReceiveData env authenticator data now =
      (d.replyOf env m e.sharedSecret (authenticator identifier)).bind fun reply =>
        d.radiusClientReceive reply now := by
  obtain ⟨code, hheader, -⟩ := h.header
  obtain ⟨prev, hpending⟩ := h.pending
  rw [radiusClientReceiveData, if_neg (Nat.not_le.mpr h.short), h.parsed]
  simp only [bind_eq_bind, bind_some, hheader, hpending]

theorem Forged.deliverTo_isSome_iff {reply : RadiusReply}
    (hreply : d.replyOf env m e.sharedSecret (authenticator identifier) = some reply) :
    (d.deliverTo reply).isSome ↔ d.AcceptsBare env authenticator m identifier e := by
  obtain ⟨code, hheader, hforged⟩ := h.header
  obtain ⟨rfl, hcode, hverified⟩ := replyOf_spec hheader hreply
  have hbare : d.AcceptsBare env authenticator m reply.identifier e ↔
      (d.apGetStaRadiusIdentifier reply.identifier).isSome ∧ reply.code = .accessReject ∧
        reply.bare = true := by
    refine and_congr_right fun _ => ⟨?_, fun hb => ⟨reply, hreply, hb⟩⟩
    rintro ⟨reply', hreply', hb⟩
    obtain rfl := some.inj (hreply.symm.trans hreply')
    exact hb
  rw [hbare]
  have hno : ¬ (reply.verified = true ∧ reply.code ≠ .other) := by
    rintro ⟨hv, hother⟩
    rcases hforged with hcode' | hnever
    · exact hother (hcode.trans hcode')
    · obtain ⟨m', hm'⟩ := hverified hv
      exact hnever m' hm'
  unfold deliverTo
  cases d.apGetStaRadiusIdentifier reply.identifier with
  | none => simp
  | some s =>
    cases hv : reply.verified with
    | true =>
      have hother : reply.code = .other := by
        by_contra hne
        exact hno ⟨hv, hne⟩
      simp [hother, Option.filter]
    | false =>
      cases reply.code with
      | accessReject => cases reply.bare with
        | true => simp [Option.filter]
        | false => simp [Option.filter]
      | accessAccept => simp [Option.filter]
      | accessChallenge => simp [Option.filter]
      | other => simp [Option.filter]

theorem Forged.numMsgs {now : Nat} {d' : Daemon}
    (hreceive : d.radiusClientReceiveData env authenticator data now = some d') :
    d'.radius.numMsgs = d.radius.numMsgs - 1 := by
  rw [h.receive_eq] at hreceive
  obtain ⟨reply, hreply, hcall⟩ := bind_eq_some_iff.mp hreceive
  obtain ⟨code, hheader, -⟩ := h.header
  obtain ⟨rfl, -, -⟩ := replyOf_spec hheader hreply
  obtain ⟨prev, hpending⟩ := h.pending
  obtain ⟨⟨radius, e'⟩, htake, hhandled⟩ := bind_eq_some_iff.mp hcall
  obtain ⟨hnum, rfl⟩ := RadiusClient.takeRequest_numMsgs hpending htake
  obtain rfl := some.inj hhandled
  rw [receiveAuth_radius]
  exact hnum

theorem Forged.lost (hok : d.radius.Ok) {now : Nat} {d' : Daemon}
    (hreceive : d.radiusClientReceiveData env authenticator data now = some d') :
    d.Lost d' a identifier ∧
      (d'.staList = d.staList ↔ ¬ d.AcceptsBare env authenticator m identifier e) := by
  rw [h.receive_eq] at hreceive
  obtain ⟨reply, hreply, hcall⟩ := bind_eq_some_iff.mp hreceive
  obtain ⟨code, hheader, -⟩ := h.header
  have hdelivered := h.deliverTo_isSome_iff hreply
  obtain ⟨rfl, hcode, -⟩ := replyOf_spec hheader hreply
  obtain ⟨prev, hpending⟩ := h.pending
  obtain ⟨radius, front, rest, htake, hentries, hleft, hgone⟩ := hok.takeRequest_removes hpending
  simp only [radiusClientReceive, htake, bind_eq_bind, bind_some] at hcall
  obtain rfl := some.inj hcall
  refine ⟨⟨⟨front, rest, hentries, ?_⟩, ?_⟩, ?_⟩
  · rw [receiveAuth_radius]
    exact hleft
  · -- a later reply, the genuine one included, finds no request
    intro later now' hlater
    apply radiusClientReceive_of_none
    rw [receiveAuth_radius, hlater]
    exact hgone
  · have hdeliver : Daemon.deliverTo { d with radius := radius } reply = d.deliverTo reply := rfl
    by_cases hbare : d.AcceptsBare env authenticator m reply.identifier e
    · -- the station gives up its identifier
      have hsome := hdelivered.mpr hbare
      refine iff_of_false (fun heq => ?_) (not_not_intro hbare)
      obtain ⟨-, reply', hreply', hreject, -⟩ := hbare
      obtain rfl := some.inj (hreply.symm.trans hreply')
      have hchanged := receiveAuth_staList_iff (d := { d with radius := radius }) hreject now
      rw [hdeliver] at hchanged
      rw [hchanged.mp heq] at hsome
      cases hsome
    · have hnone : d.deliverTo reply = none := by
        rw [← not_isSome_iff_eq_none]
        exact fun hsome => hbare (hdelivered.mp hsome)
      refine iff_of_true ?_ hbare
      rw [receiveAuth, hdeliver, hnone]

end Daemon

/-- **Forged replies** are never ignored: whatever the pending list and the stations are, a
    datagram that fails authentication changes them.  In a list that is in order its request is
    gone, no later reply is matched with it, and the stations are as they were unless the datagram
    is an Access-Reject that is accepted unverified. -/
theorem forged_reply_never_ignored (d : Daemon) (env : ReceiveEnv)
    (authenticator : BitVec 8 → Buf Radius.md5MacLen) (data : List (BitVec 8)) (now : Nat)
    {m : Radius.RadiusMsg} {identifier : BitVec 8} {a : Nat} {e : RadiusMsgList}
    (h : d.Forged env authenticator data m identifier a e) :
    ¬ d.Ignores env authenticator data now ∧
      (d.radius.Ok → ∀ d', d.radiusClientReceiveData env authenticator data now = some d' →
        d.Lost d' a identifier ∧
          (d'.staList = d.staList ↔ ¬ d.AcceptsBare env authenticator m identifier e)) := by
  constructor
  · rintro ⟨d', hreceive, hradius, -⟩
    have hnum := h.numMsgs hreceive
    rw [hradius] at hnum
    bv_omega
  · intro hok d' hreceive
    exact h.lost hok hreceive

/-- A daemon with one pending request, at 7, for which a station waits. -/
def waitingDaemon : Daemon :=
  let e : RadiusMsgList := ⟨⟨0, 0⟩, .radiusAuth, 0, 1, 1, 2, [], 0, none⟩
  { apdInit { radiusClientInit 1 oneServer with
      heap := Function.update (fun _ => none) 7 (some e)
      msgs := some 7
      numMsgs := 1
      nextRadiusIdentifier := 1 } false 0 with
    staList := [⟨0, 0x020000000001, 0, some 0, some 0⟩] }

/-- Digests that are always zero, and allocations that succeed. -/
def zeroEnv : ReceiveEnv :=
  ⟨fun _ => Buf.fill _ 0, fun _ _ => Buf.fill _ 0, 0, fun _ => true, fun _ => true⟩

def bareAccept : List (BitVec 8) := [2, 0, 0, 20] ++ replicate 16 0

theorem waitingDaemon_ok : waitingDaemon.radius.Ok := by
  have hpend : waitingDaemon.radius.Pending [7] := by
    refine ⟨⟨rfl, rfl⟩, ?_, ?_⟩
    · simp [waitingDaemon, apdInit]
    · simp
  exact hpend.ok (by decide) (by decide)

theorem forged_bareAccept : ∃ m e, waitingDaemon.Forged zeroEnv (fun _ => Buf.fill _ 0) bareAccept m
    0 7 e := by
  refine ⟨⟨0, bareAccept, 20, [], 16⟩, ⟨⟨0, 0⟩, .radiusAuth, 0, 1, 1, 2, [], 0, none⟩, by decide,
    rfl, ⟨2, rfl, .inr ?_⟩, none, rfl⟩
  intro m' h
  cases h

/-- A made-up Access-Accept. -/
theorem forged_reply_never_ignored_accept :
    ∃ d', waitingDaemon.radiusClientReceiveData zeroEnv (fun _ => Buf.fill _ 0) bareAccept 0 =
        some d' ∧ waitingDaemon.Lost d' 7 0 := by
  obtain ⟨m, e, h⟩ := forged_bareAccept
  have hsome : (waitingDaemon.radiusClientReceiveData zeroEnv (fun _ => Buf.fill _ 0) bareAccept
      0).isSome := rfl
  obtain ⟨d', hreceive⟩ := Option.isSome_iff_exists.mp hsome
  have hall :=
    forged_reply_never_ignored waitingDaemon zeroEnv (fun _ => Buf.fill _ 0) bareAccept 0 h
  exact ⟨d', hreceive, (hall.2 waitingDaemon_ok d' hreceive).1⟩

/-- The made-up Access-Accept is not ignored. -/
theorem not_ignores_bareAccept :
    ¬ ∀ (d : Daemon) (env : ReceiveEnv) (authenticator : BitVec 8 → Buf Radius.md5MacLen)
      (data : List (BitVec 8)) (now : Nat) (m : Radius.RadiusMsg) (identifier : BitVec 8) (a : Nat)
      (e : RadiusMsgList), d.radius.Ok → d.Forged env authenticator data m identifier a e →
        d.Ignores env authenticator data now := by
  intro hall
  obtain ⟨m, e, h⟩ := forged_bareAccept
  obtain ⟨d', hreceive, hradius, -⟩ := hall _ _ _ _ 0 _ _ _ _ waitingDaemon_ok h
  have hnum := h.numMsgs hreceive
  rw [hradius] at hnum
  exact absurd hnum (by decide)

end RalinkSdk.Dot1x
