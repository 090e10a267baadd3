import BcpFlux.Socket.Incoming
import BcpFlux.Socket.KeyAgreement

/-! # What a datagram that proves nothing does to the flows

A datagram that does not verify under the session of the peer at its source address
is followed through every branch of the receive path.  Two branches reach the
receiving associations: the flow machinery does not ask whether a packet was
protected, and a handshake message can evict a peer that never opened a packet.
-/

namespace BcpFlux.Socket
open Library Wire Crypto

/-! ## When a handshake message evicts -/

section Evict
variable {Mac : Type} [DecidableEq Mac] {me : HsNode Mac}

omit [DecidableEq Mac] in
theorem judgeRes_remove_iff (suite : HandshakeSuite Mac) (r : HsRes) (c : HsChoices)
    {e : HsEntry Mac} (he : me.entry = some e) :
    me.judgeRes suite r c = .remove ↔
      e.state = .established ∧ e.id ≠ some (suite.deriveId r.pk) ∧ e.confirmed = false := by
  rw [HsNode.judgeRes, he]
  dsimp only
  by_cases hstate : e.state = .established
  · by_cases hid : e.id = some (suite.deriveId r.pk)
    · rw [if_pos hstate, if_neg (not_not_intro hid)]
      split_ifs <;> simp [hid]
    · rw [if_pos hstate, if_pos hid]
      split_ifs with hconfirmed <;> simp [hstate, hid, hconfirmed]
  · rw [if_neg hstate]
    split_ifs <;> simp [hstate]

theorem handle_entry_eq_none_iff (suite : HandshakeSuite Mac) (m : HsMessage Mac)
    (c : HsChoices) {e : HsEntry Mac} (he : me.entry = some e) :
    (me.handle suite m c).1.entry = none ↔ ∃ r, m = .res r ∧ c.cookieOk = true ∧
      e.state = .established ∧ e.id ≠ some (suite.deriveId r.pk) ∧ e.confirmed = false := by
  cases m with
  | init => simp [HsNode.handle, he]
  | challenge =>
    simp only [HsNode.handle, HsNode.respond, he]
    split_ifs <;> simp [he]
  | finish f =>
    simp only [HsNode.handle, HsNode.complete, he]
    split_ifs <;> simp [he]
  | res r =>
    simp only [HsNode.handle, HsMessage.res.injEq, exists_eq_left', HsNode.validate,
      ← judgeRes_remove_iff suite r c he]
    by_cases hcookie : c.cookieOk = true
    · rw [if_neg (by simp [hcookie])]
      cases hj : me.judgeRes suite r c with
      | ignore => simp [he]
      | remove => simp [hcookie]
      | again e => simp [he]
      | commit e =>
        split_ifs <;> simp
    · rw [if_pos (by simp [hcookie])]
      simp [hcookie, he]

end Evict

namespace RecvSocket
variable {Mac : Type} (suite : RecvSuite Mac) (s : RecvSocket Mac)

/-- The datagram opens under the session of the peer at its source address and its counter
is accepted. -/
def verified (src : Address) (d : Datagram) : Bool :=
  match s.slotOf src with
  | none => false
  | some i => (verify suite.cipher s.publicKey ((s.peer i).session suite.cipher s.publicKey)
      (s.peer i).window d).isSome

/-- A well-formed flow packet from an established peer that its flow would act on. -/
def takesFlow (src : Address) (d : Datagram) (c : RecvChoices) : Bool :=
  s.receiveEnabled && !(decide (d.flowId = Flow.invalidFlowId ∨ d.flowSeq = 0)) &&
    !(d.isBatch && !batchValidate d.content) && match s.slotOf src with
    | none => false
    | some i => decide ((s.peer i).hs.state = .established) &&
      Flow.actsOn s.limits c.flow (s.inDir i) d.flowId d.flowData d.flowSeq

/-- A handshake message that evicts a peer with receiving associations. -/
def evictsFlows (src : Address) (d : Datagram) (c : RecvChoices) : Bool :=
  match parseInternal suite.readMac d, s.slotOf src with
  | some (.res r), some i => c.hs.cookieOk && s.receiveEnabled && !(s.inDir i).isEmpty &&
    decide ((s.peer i).hs.state = .established) && !(s.peer i).hs.confirmed &&
    decide ((s.peer i).hs.id ≠ some (suite.handshake.deriveId r.pk))
  | _, _ => false

/-- The receiving associations are as they were and nothing came out as flow data. -/
def FlowsKept (r : RecvSocket Mac × List (RecvOut Mac)) : Prop :=
  r.1.inDir = s.inDir ∧ ∀ x, RecvOut.flowData x ∉ r.2

variable {suite s} {src : Address} {d : Datagram} {c : RecvChoices}

/-! ## Flow packets -/

theorem processFlowIn_kept_iff :
    s.FlowsKept (s.processFlowIn src d c) ↔ s.takesFlow src d c = false := by
  rw [processFlowIn, takesFlow]
  cases henabled : s.receiveEnabled with
  | false => simp [FlowsKept]
  | true =>
    by_cases hfields : d.flowId = Flow.invalidFlowId ∨ d.flowSeq = 0
    · simp [FlowsKept, hfields]
    cases hbatch : d.isBatch && !batchValidate d.content with
    | true => simp [FlowsKept, hfields]
    | false =>
      cases hslot : s.slotOf src with
      | none => simp [FlowsKept, hfields]
      | some i =>
        by_cases hstate : (s.peer i).hs.state = .established
        · have hkept := Flow.flowIn_untouched_iff s.limits c.flow (s.inDir i)
            ⟨i, src, (s.peer i).hs.id.getD ⟨[]⟩⟩ d.flowId d.flowData d.flowSeq c.slot
          simp only [hfields, hstate, FlowsKept]
          simp [← hkept, List.eq_nil_iff_forall_not_mem]
        · simp [FlowsKept, hfields, hstate]

theorem takesFlow_of_unknown (h : s.slotOf src = none) : s.takesFlow src d c = false := by
  simp [takesFlow, h]

theorem takesFlow_stamped (i : ℕ) :
    (s.setPeer i (s.stampSeen (s.peer i) c.stamp)).takesFlow src d c = s.takesFlow src d c := by
  have hhs : ∀ j, ((s.setPeer i (s.stampSeen (s.peer i) c.stamp)).peer j).hs = (s.peer j).hs := by
    intro j
    by_cases hj : j = i
    · subst hj
      simp only [setPeer, Function.update_self, stampSeen]
      split <;> rfl
    · simp only [setPeer, Function.update_of_ne hj]
  simp only [takesFlow, hhs]
  rfl

/-! ## Migration -/

theorem updateAddress_inDir (i : ℕ) (dest : Address) :
    (s.updateAddress i dest).inDir = s.inDir := by
  rw [updateAddress]
  split_ifs <;> rfl

theorem pathChallengeComplete_inDir (payload : List UInt8) :
    (s.pathChallengeComplete src payload c).inDir = s.inDir := by
  rw [pathChallengeComplete]
  split
  · rfl
  dsimp only
  split
  · rfl
  · rw [updateAddress_inDir]
    rfl

theorem tryMigrate_kept (suite : RecvSuite Mac) (s : RecvSocket Mac) (src : Address)
    (d : Datagram) (c : RecvChoices) :
    (s.tryMigrate suite src d c).1.inDir = s.inDir ∧
    (∀ x, RecvOut.flowData x ∉ (s.tryMigrate suite src d c).2.2) ∧
    ∀ p, (s.tryMigrate suite src d c).2.1 = some p →
      (s.tryMigrate suite src d c).1.slotOf = s.slotOf := by
  rw [tryMigrate]
  split
  · simp
  dsimp only
  split
  · simp
  split
  · simp
  split
  · exact ⟨pathChallengeComplete_inDir _, by simp, nofun⟩
  · refine ⟨rfl, fun x => ?_, fun _ _ => rfl⟩
    split <;> simp

/-! ## Handshake traffic -/

theorem putNode_inDir (node : HsNode Mac) :
    (s.putNode src node c).inDir = match s.slotOf src, node.entry with
      | some i, none => if s.receiveEnabled then Function.update s.inDir i [] else s.inDir
      | _, _ => s.inDir := by
  rw [putNode]
  split <;> simp_all [registerPeer, removePeer, setPeer]

variable [DecidableEq Mac]

theorem processInternal_kept_iff :
    s.FlowsKept (s.processInternal suite src d c) ↔ s.evictsFlows suite src d c = false := by
  rw [processInternal, evictsFlows]
  cases hparse : parseInternal suite.readMac d with
  | none => simp [FlowsKept]
  | some m =>
    have hout : ∀ x, RecvOut.flowData x ∉
        (((s.nodeAt src).handle suite.handshake m c.hs).2.map .handshake).toList := by
      simp
    simp only [FlowsKept, hout, not_false_eq_true, implies_true, and_true, putNode_inDir]
    cases hslot : s.slotOf src with
    | none => simp
    | some i =>
      have he : (s.nodeAt src).entry = some (s.peer i).hs := by simp [nodeAt, hslot]
      have hnone := handle_entry_eq_none_iff suite.handshake m c.hs he
      cases hentry : ((s.nodeAt src).handle suite.handshake m c.hs).1.entry with
      | none =>
        obtain ⟨r, rfl, hcookie, hstate, hid, hconfirmed⟩ := hnone.mp hentry
        cases henabled : s.receiveEnabled <;>
          simp [hcookie, hstate, hid, hconfirmed, @eq_comm _ []]
      | some e =>
        cases m with
        | res r =>
          have hkept : ¬ (c.hs.cookieOk = true ∧ (s.peer i).hs.state = .established ∧
              (s.peer i).hs.id ≠ some (suite.handshake.deriveId r.pk) ∧
              (s.peer i).hs.confirmed = false) := by
            intro h
            rw [hnone.mpr ⟨r, rfl, h⟩] at hentry
            cases hentry
          by_contra htrue
          simp at htrue
          tauto
        | init => simp
        | challenge => simp
        | finish f => simp

/-! ## The whole turn -/

/-- Without protection, a packet its flow would act on, or a message that evicts a peer
with receiving associations. -/
def touchesFlows (suite : RecvSuite Mac) (s : RecvSocket Mac) (src : Address) (d : Datagram)
    (c : RecvChoices) : Bool :=
  !d.isSecure &&
    if d.isInternal then s.evictsFlows suite src d c else d.hasFlow && s.takesFlow src d c

theorem receive_of_passed {s' : RecvSocket Mac} {p : Datagram} {out : List (RecvOut Mac)}
    (hinternal : d.isInternal = false) (hpass : s.preProcessIn suite src d c = (s', some p, out))
    (hdir : s'.inDir = s.inDir) (hout : ∀ x, RecvOut.flowData x ∉ out)
    (hchannel : p.secureChannel = secureChannelApp) :
    s.FlowsKept (s.receive suite src d c) ↔ (p.hasFlow && s'.takesFlow src p c) = false := by
  rw [receive, hinternal, if_neg Bool.false_ne_true, hpass]
  dsimp only
  rw [if_neg (not_not_intro hchannel)]
  cases hflow : p.hasFlow with
  | false =>
    cases c.queue <;> simp [FlowsKept, hdir, hout]
  | true =>
    rw [if_pos rfl, Bool.true_and, ← processFlowIn_kept_iff]
    simp [FlowsKept, hdir, hout]

theorem receive_unsecured_iff (hinternal : d.isInternal = false) (hsecure : d.isSecure = false) :
    s.FlowsKept (s.receive suite src d c) ↔ (d.hasFlow && s.takesFlow src d c) = false := by
  have hchannel : d.secureChannel = secureChannelApp := by simp [Datagram.secureChannel, hsecure]
  cases haccept : s.acceptUnsecureFromUnknown with
  | true =>
    have hpass : s.preProcessIn suite src d c = (s, some d, []) := by
      simp [preProcessIn, hsecure, haccept]
    exact receive_of_passed hinternal hpass rfl (by simp) hchannel
  | false =>
    cases hslot : s.slotOf src with
    | none =>
      rw [takesFlow_of_unknown hslot, Bool.and_false]
      simp [receive, hinternal, preProcessIn, hsecure, haccept, hslot, FlowsKept]
    | some i =>
      have hpass : s.preProcessIn suite src d c =
          (s.setPeer i (s.stampSeen (s.peer i) c.stamp), some d, []) := by
        simp [preProcessIn, hsecure, haccept, hslot]
      rw [← takesFlow_stamped i]
      exact receive_of_passed hinternal hpass rfl (by simp) hchannel

theorem receive_of_dropped {s' : RecvSocket Mac} {out : List (RecvOut Mac)}
    (hinternal : d.isInternal = false) (hdrop : s.preProcessIn suite src d c = (s', none, out))
    (hdir : s'.inDir = s.inDir) (hout : ∀ x, RecvOut.flowData x ∉ out) :
    s.FlowsKept (s.receive suite src d c) := by
  rw [receive, hinternal, if_neg Bool.false_ne_true, hdrop]
  exact ⟨hdir, hout⟩

theorem receive_moved_kept (hinternal : d.isInternal = false) (hslot : s.slotOf src = none)
    (hmoved : s.preProcessIn suite src d c = s.tryMigrate suite src d c) :
    s.FlowsKept (s.receive suite src d c) := by
  have hkept := s.tryMigrate_kept suite src d c
  rcases htry : s.tryMigrate suite src d c with ⟨s', passed, out⟩
  rw [htry] at hkept hmoved
  obtain ⟨hdir, hout, hslots⟩ := hkept
  cases passed with
  | none => exact receive_of_dropped hinternal hmoved hdir hout
  | some p =>
    by_cases hchannel : p.secureChannel = secureChannelApp
    · have hunknown : s'.slotOf src = none := by
        rw [hslots p rfl]
        exact hslot
      rw [receive_of_passed hinternal hmoved hdir hout hchannel, takesFlow_of_unknown hunknown,
        Bool.and_false]
    · rw [receive, hinternal, if_neg Bool.false_ne_true, hmoved]
      dsimp only
      rw [if_pos hchannel]
      refine ⟨hdir, fun x hx => ?_⟩
      rcases List.mem_append.mp hx with hx | hx
      · exact hout x hx
      · rw [processSecureControl] at hx
        split at hx <;> simp at hx

theorem receive_secured_kept (hinternal : d.isInternal = false) (hsecure : d.isSecure = true)
    (h : s.verified suite src d = false) : s.FlowsKept (s.receive suite src d c) := by
  by_cases hlen : d.length < secureHeaderSize d
  · have hdrop : s.preProcessIn suite src d c = (s, none, []) := by
      simp [preProcessIn, hsecure, hlen]
    exact receive_of_dropped hinternal hdrop rfl (by simp)
  cases hslot : s.slotOf src with
  | some i =>
    have hverify : verify suite.cipher s.publicKey ((s.peer i).session suite.cipher s.publicKey)
        (s.peer i).window d = none := by
      simpa [verified, hslot] using h
    have hdrop : s.preProcessIn suite src d c = (s, none, []) := by
      simp [preProcessIn, hsecure, hlen, hslot, hverify]
    exact receive_of_dropped hinternal hdrop rfl (by simp)
  | none =>
    cases hmove : s.migration && d.isTagged with
    | false =>
      have hdrop : s.preProcessIn suite src d c = (s, none, []) := by
        rw [preProcessIn, hsecure, hslot, hmove]
        simp [hlen]
      exact receive_of_dropped hinternal hdrop rfl (by simp)
    | true =>
      refine receive_moved_kept hinternal hslot ?_
      rw [preProcessIn, hsecure, hslot, hmove]
      simp [hlen]

/-- A datagram that verifies under no session leaves every receiving association as it was
and delivers no flow data, exactly if it does not reach the flows unprotected. -/
theorem unverified_keeps_flows_iff (suite : RecvSuite Mac) (s : RecvSocket Mac) (src : Address)
    (d : Datagram) (c : RecvChoices) (h : s.verified suite src d = false) :
    s.FlowsKept (s.receive suite src d c) ↔ s.touchesFlows suite src d c = false := by
  rw [touchesFlows]
  cases hsecure : d.isSecure with
  | true =>
    simp only [Bool.not_true, Bool.false_and, iff_true]
    cases hinternal : d.isInternal with
    | true => simp [receive, hinternal, hsecure, FlowsKept]
    | false => exact receive_secured_kept hinternal hsecure h
  | false =>
    cases hinternal : d.isInternal with
    | true =>
      rw [receive, hinternal, if_pos rfl, hsecure, if_neg Bool.false_ne_true,
        processInternal_kept_iff]
      simp
    | false =>
      rw [receive_unsecured_iff hinternal hsecure]
      simp

end RecvSocket

/-! ## One peer and one flow packet -/

def clearRecv : RecvSuite (Key × Transcript) where
  cipher := .transparent
  handshake := clearSuite
  readMac bytes := (bytes, ⟨[], [], [], [], [], [], 0, 0, 0, 0, []⟩)

def knownAddress : Address := ⟨[10, 0, 0, 1], 0, 4000⟩

def newAddress : Address := ⟨[10, 0, 0, 2], 0, 4000⟩

def knownPeer : RecvPeer (Key × Transcript) where
  addr := knownAddress
  hs := { HsEntry.register clearSuite (some ⟨[1, 2]⟩) with
    state := .established, confirmed := true, theirPk := [1, 2], session := [9] }
  window := .replayFor 256 0 fun _ => 0
  lastSeenAt := 0
  theirTagStep := 0
  pathAddr := none
  pathChallenge := List.replicate pathChallengeSize 0
  pathStep := 0

def quietSocket : RecvSocket (Key × Transcript) where
  side := false
  secretKey := [1]
  publicKey := [1, 1]
  ownTag := []
  version := 1
  generated := 0
  receiveEnabled := true
  acceptUnsecureFromUnknown := false
  migration := true
  limits := ⟨5000000, 8⟩
  seenGrainStamp := 1
  migrateBudget := 16
  slotOf a := if a = knownAddress then some 0 else none
  peer _ := knownPeer
  inDir _ := []

def easyRecv : RecvChoices where
  slot := 3
  stamp := 7
  flow := ⟨⟨100, true, fun _ => true⟩, some .raw, true⟩
  queue := true
  hs := plainChoices
  peerSlot := 1
  candidates := []
  holders := []
  challenge := none

def flowDatagram (controller : UInt8) : Datagram := controller :: [5, 0, 1, 0, 0, 0, 0, 42]

/-- The same bytes under the bits of a secure packet, with room for a nonce and a tag, open
under no session. -/
theorem RecvSocket.unverified_keeps_flows_secured :
    quietSocket.FlowsKept (quietSocket.receive clearRecv knownAddress
      (flowDatagram ctrlHasFlow ++ List.replicate 32 0) easyRecv) :=
  (RecvSocket.unverified_keeps_flows_iff clearRecv quietSocket knownAddress
    (flowDatagram ctrlHasFlow ++ List.replicate 32 0) easyRecv (by decide +kernel)).mpr
    (by decide +kernel)

/-- Without protection, one forged datagram opens a flow at a confirmed peer and its content
is delivered from it. -/
theorem RecvSocket.unprotected_packet_opens_flow :
    quietSocket.verified clearRecv knownAddress (flowDatagram (ctrlHasFlow ||| ctrlUnsecure)) =
      false ∧
    quietSocket.inDir 0 = [] ∧
    ((quietSocket.receive clearRecv knownAddress (flowDatagram (ctrlHasFlow ||| ctrlUnsecure))
      easyRecv).1.inDir 0).map Flow.InDirEntry.flowId = [5] ∧
    RecvOut.flowData ⟨1, 3⟩ ∈ (quietSocket.receive clearRecv knownAddress
      (flowDatagram (ctrlHasFlow ||| ctrlUnsecure)) easyRecv).2 := by
  refine ⟨by decide +kernel, rfl, by decide +kernel, ?_⟩
  exact List.mem_singleton.mpr rfl

end BcpFlux.Socket
