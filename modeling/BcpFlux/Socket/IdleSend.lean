import BcpFlux.Socket.WireSize

/-! # A message on an idle flow

`Send` offers a whole message to the open batch of its association, and answers
`TooManyPending` whenever the batch does not take it.  The batch refuses an empty message and one
that is too long for it; of these the first send of a flow passes the empty one on.
-/

namespace BcpFlux.Socket
open Library Wire BcpFlux.Flow Peer

namespace SendPath

/-- The association is idle and everything around it works: a session and the identity asked for,
an open gate, no flush in progress, and a flush of the open batch succeeds.  A batch is kept in a
buffer of one datagram. -/
structure Idle (s : SendPath) (p : Parcel) (requireAuth : Bool) (flush : Choices) (left : Bool)
    (peer : SendPeer) (flow : SendFlow) : Prop where
  peer_eq : s.peer = some peer
  established : peer.established = true
  authenticated : requireAuth = true → peer.authenticated = true
  flow_eq : s.flows p.bytes.flowId = some flow
  gate : wouldAdmit flow.assoc flush.budget p.bytes.length = true
  settled : flow.batch.inFlight = false
  buffer : flow.batch.buffer.length ≤ maxWirePacketSize
  flushes : (s.flushOneBatch p.bytes.flowId flush left).2 = .ok

/-- A message the batch can take: there is something to frame, and it fits a datagram of its own
once sealed, or what the open batch has left. -/
def Batchable (flow : SendFlow) (content : List UInt8) (bytes : Datagram) : Prop :=
  content ≠ [] ∧ (bytes.length + wireTagSize ≤ maxWirePacketSize ∨ flow.batch.buffer ≠ [] ∧
    batchFits (flow.batch.cursor (OpenBatch.appendLimit bytes maxWirePacketSize)) content.length = true)

instance (flow : SendFlow) (content : List UInt8) (bytes : Datagram) :
    Decidable (Batchable flow content bytes) := inferInstanceAs (Decidable (_ ∧ _))

end SendPath

/-! ## The verdict on a built packet -/

section Verdict
variable {level : Security} {target : Option FlowTarget} {content : List UInt8} {bytes : Datagram}

theorem content_lt (h : Built level target content bytes) : content.length < 2 ^ 16 := by
  have hsize := h.size_le
  have hlength := h.length_eq
  have hroom : writerRoom < 2 ^ 16 := by decide
  omega

theorem appendToBatch_built (h : Built level target content bytes) (hsecure : bytes.isSecure = true)
    {batch : OpenBatch} (hidle : batch.inFlight = false) :
    (batch.appendToBatch bytes maxWirePacketSize).1 =
      if content = [] then .rejected
      else if batch.buffer = [] then
        if bytes.length + wireTagSize ≤ maxWirePacketSize then .appended else .rejected
      else if batchFits (batch.cursor (OpenBatch.appendLimit bytes maxWirePacketSize)) content.length
        then .appended else .sealed := by
  have hlimit : OpenBatch.appendLimit bytes maxWirePacketSize = maxWirePacketSize - wireTagSize := by
    simp [OpenBatch.appendLimit, hsecure]
  have hsmall := content_lt h
  have hlength := h.length_eq
  by_cases hempty : content = []
  · have hbare : bytes.length ≤ bytes.contentOffset := by simp [hlength, hempty]
    simp [OpenBatch.appendToBatch, hempty, hbare]
  · have hpos : content.length ≠ 0 := fun hzero => hempty (List.length_eq_zero_iff.mp hzero)
    have hframed : ¬ (bytes.length ≤ bytes.contentOffset ∨
        2 ^ 16 ≤ bytes.length - bytes.contentOffset) := by omega
    have hroom : OpenBatch.appendLimit bytes maxWirePacketSize ≠ 0 := by
      rw [hlimit]
      decide
    rw [OpenBatch.appendToBatch, if_neg hframed, if_neg hroom, hidle, if_neg (by simp),
      if_neg hempty]
    by_cases hopen : batch.buffer = []
    · rw [if_pos hopen, if_pos hopen, OpenBatch.openWith, hlimit]
      split_ifs
      · omega
      · rfl
      · rfl
      · omega
    · rw [if_neg hopen, if_neg hopen, OpenBatch.extendWith, h.content_eq]
      cases happend : batchAppend (batch.cursor (OpenBatch.appendLimit bytes maxWirePacketSize))
          content with
      | some cursor => rw [if_pos (batchFits_of_append happend)]
      | none =>
        rw [batchAppend] at happend
        split_ifs at happend with hfits
        rw [if_neg hfits]

end Verdict

namespace SendPath

theorem Idle.joinBatch {s : SendPath} {p : Parcel} {requireAuth left : Bool} {flush : Choices}
    {peer : SendPeer} {flow : SendFlow} (h : s.Idle p requireAuth flush left peer flow)
    {level : Security} {target : Option FlowTarget} {content : List UInt8}
    (hbuilt : Built level target content p.bytes) (hsecure : p.bytes.isSecure = true) :
    (s.joinBatch p.bytes.flowId p flush left).2 = .ok ↔ Batchable flow content p.bytes := by
  have hverdict := appendToBatch_built hbuilt hsecure h.settled
  have happend : (s.appendTo p.bytes.flowId p).2 =
      (flow.batch.appendToBatch p.bytes maxWirePacketSize).1 := by
    rw [appendTo, h.flow_eq]
  obtain ⟨flow', hflow', hflushed⟩ := s.flushOneBatch_ok h.flow_eq h.flushes
  unfold SendPath.joinBatch Batchable
  dsimp only
  rw [happend, hverdict]
  by_cases hempty : content = []
  · simp [hempty, admitStatus]
  by_cases hopen : flow.batch.buffer = []
  · rw [if_neg hempty, if_pos hopen]
    split_ifs <;> simp_all [admitStatus]
  by_cases hfits : batchFits (flow.batch.cursor
      (OpenBatch.appendLimit p.bytes maxWirePacketSize)) content.length = true
  · simp [hempty, hopen, hfits, admitStatus]
  · -- the batch is full: it is sent, and the message opens the next one
    have hbatch : flow'.batch = .empty := by
      refine hflushed.resolve_right ?_
      rintro ⟨-, hstuck⟩
      rcases hstuck hopen (by rw [h.peer_eq]; rfl) with hflight | hlong
      · rw [h.settled] at hflight
        cases hflight
      · exact absurd h.buffer (by omega)
    have hagain : ((s.flushOneBatch p.bytes.flowId flush left).1.appendTo p.bytes.flowId p).2 =
        if p.bytes.length + wireTagSize ≤ maxWirePacketSize then .appended else .rejected := by
      have hidle : flow'.batch.inFlight = false := by
        rw [hbatch]
        rfl
      have hnext := appendToBatch_built hbuilt hsecure hidle
      rw [if_neg hempty, if_pos (by rw [hbatch]; rfl)] at hnext
      rw [appendTo, hflow']
      exact hnext
    simp only [hempty, hopen, hfits, Bool.false_eq_true, if_false, if_true, h.flushes, ne_eq,
      not_true_eq_false, not_false_eq_true, true_and, and_false, or_false, hagain]
    split_ifs with hsize <;> simp [admitStatus, hsize]

/-- A whole message a builder completes is accepted on an idle flow exactly if the batch can take
it; as the first of its flow, stamped and taken by `sendto`, exactly if it fits a datagram of its
own once sealed. -/
theorem idle_send_ok_iff {level : Security} {tagged : Bool} {target : FlowTarget}
    {content : List UInt8} {p : Parcel}
    (hbuilt : buildPacket level tagged (some target) content = some p.bytes)
    (hwhole : isHandFramed p.bytes = false) {s : SendPath} {requireAuth left : Bool}
    {flush : Choices} {peer : SendPeer} {flow : SendFlow}
    (h : s.Idle p requireAuth flush left peer flow) (retained : Bool) (own : Choices) :
    ((s.sendPacket p requireAuth retained flush own left).2 = .ok ↔
        Batchable flow content p.bytes) ∧
      ∀ first : SendPath, first.peer = some peer → first.flows p.bytes.flowId = none →
        own.wireSlot = true → (first.admitFlow p true own).1 = .sent → own.taken = true →
        ((first.sendPacket p requireAuth retained flush own left).2 = .ok ↔
          p.bytes.length + wireTagSize ≤ maxWirePacketSize) := by
  have hfacts := buildPacket_built hbuilt
  have hflow : p.bytes.hasFlow = true := hfacts.hasFlow_eq
  have hsecure : p.bytes.isSecure = true := by
    rw [hfacts.secure_eq, decide_eq_true_eq]
    exact hfacts.flow_secure rfl
  have hauth : (requireAuth && !peer.authenticated) = false := by
    cases hreq : requireAuth with
    | false => rfl
    | true => simp [h.authenticated hreq]
  constructor
  · have htarget : s.offerTarget p requireAuth = some flow := by
      simp [offerTarget, h.peer_eq, h.established, hauth, h.flow_eq]
    rw [← h.joinBatch hfacts hsecure]
    simp [sendPacket, offerToBatch, hflow, hsecure, hwhole, htarget, h.gate]
  · intro first hpeer hnone hslot hsent htaken
    have htarget : first.offerTarget p requireAuth = none := by
      simp [offerTarget, hpeer, h.established, hauth, hnone]
    have hhead : ¬ p.bytes.length < p.bytes.headSize := by
      have hlength := hfacts.length_eq
      simp only [Datagram.contentOffset] at hlength
      omega
    have hpass : ¬ (requireAuth = true ∧ peer.authenticated = false) := by simpa using hauth
    have hsize : (first.admitFlow p true own).2.1.bytes.length = p.bytes.length := by
      rcases first.admitFlow_stamp p true own with heq | ⟨flow', heq⟩
      · rw [heq]
      · rw [heq]
        exact stampBytes_length hflow (by rw [hfacts.length_eq]; exact Nat.le_add_right _ _) _ _
    simp [sendPacket, offerToBatch, hflow, hsecure, hwhole, htarget, preProcessOut, hpeer,
      preProcessKnown, hpass, hhead, sendOnFlow, hslot, h.established, hsent, afterStamp,
      Departure.sendTo, Departure.wireSize, hsize, htaken]

def builtParcel (content : List UInt8) : Parcel :=
  ⟨(buildPacket .encrypted false (some ⟨5, .reliableOrdered, 8, .whole⟩) content).getD [], []⟩

def idleFlow : SendFlow :=
  ⟨resetOutAssoc 0 ⟨0, ⟨[], 0, 0⟩, ⟨[]⟩, 5, .reliableOrdered, 1, 4⟩ 0, .empty, []⟩

def idlePath (flow : Option SendFlow) : SendPath :=
  { initial with peer := some ⟨true, true⟩, flows := fun _ => flow }

theorem idle_send_ok_iff_short :
    ((idlePath (some idleFlow)).sendPacket (builtParcel [1, 2, 3]) true true (easyChoices 0)
        (easyChoices 0) true).2 = .ok ∧
      ((idlePath none).sendPacket (builtParcel [1, 2, 3]) true true (easyChoices 0)
        (easyChoices 0) true).2 = .ok := by
  have hbuilt : buildPacket .encrypted false (some ⟨5, .reliableOrdered, 8, .whole⟩) [1, 2, 3] =
      some (builtParcel [1, 2, 3]).bytes := by decide +kernel
  have hidle : (idlePath (some idleFlow)).Idle (builtParcel [1, 2, 3]) true (easyChoices 0) true
      ⟨true, true⟩ idleFlow :=
    ⟨rfl, rfl, fun _ => rfl, rfl, by decide +kernel, rfl, by decide +kernel, by decide +kernel⟩
  have hboth := idle_send_ok_iff hbuilt (by decide +kernel) hidle true (easyChoices 0)
  exact ⟨hboth.1.mpr (by decide +kernel),
    (hboth.2 (idlePath none) rfl rfl rfl (by decide +kernel) rfl).mpr (by decide +kernel)⟩

/-- An empty message is refused on an idle flow and accepted as its first. -/
theorem empty_message_refused :
    (buildPacket .encrypted false (some ⟨5, .reliableOrdered, 8, .whole⟩) []).isSome = true ∧
      ((idlePath (some idleFlow)).sendPacket (builtParcel []) true true (easyChoices 0)
        (easyChoices 0) true).2 = .tooManyPending ∧
      ((idlePath none).sendPacket (builtParcel []) true true (easyChoices 0)
        (easyChoices 0) true).2 = .ok := by
  decide +kernel

end SendPath

end BcpFlux.Socket
