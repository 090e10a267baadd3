import BcpFlux.Flow.Inbound
import BcpFlux.Peer.Budget

/-! # The sending association

`OutAssociation` with its in-flight ring and waiting queue, and the functions of
`flow_table.cpp` that stamp packets into it, resolve acknowledgements against it
and collect what has to be sent again.  Staging slots that a function gives back
to the pool are returned as a list.
-/

namespace BcpFlux.Flow
open Library Peer

def flowDeathRounds : ℕ := 16
def flowDeathMinProbes : ℕ := 8
def resendsPerAssocPerTick : ℕ := 16
def uint8Max : ℕ := 255

structure FlowTimers where
  retryIntervalMicros : ℕ
  ackDelayMicros : ℕ
  flowStallTimeout : ℕ
deriving DecidableEq, Repr

/-- One packet sent and not yet released; sequence zero marks a free cell. -/
structure InFlightEntry where
  sentAtMicros : ℕ
  seq : ℕ
  packetSlot : Option ℕ
  wireSize : ℕ
  retries : ℕ
  congestionEpoch : ℕ
  acked : Bool
  lostByAck : Bool
  freeResend : Bool
deriving DecidableEq, Repr

def InFlightEntry.free : InFlightEntry := ⟨0, 0, none, 0, 0, 0, false, false, false⟩

/-- One packet accepted but refused the wire for now. -/
structure WaitingEntry where
  waitingSince : ℕ
  packetSlot : ℕ
  wireSize : ℕ
deriving DecidableEq, Repr

structure OutAssociation where
  peerSlot : ℕ
  peerAddr : Address
  peerId : BcpId
  flowId : ℕ
  mode : FlowMode
  flowEpoch : UInt8
  epoch : ℕ
  life : FlowLifecycle
  nextSeq : ℕ
  unresolved : ℕ
  lastResolvedMicros : ℕ
  ackBase : ℕ
  inflightCap : ℕ
  waitingCap : ℕ
  inFlight : ℕ → InFlightEntry
  /-- The FIFO over `[waitingHead, waitingHead + waitingCount)`, oldest first. -/
  waiting : List WaitingEntry

/-- What `CreateAssociation` hands `ResetOutAssoc`. -/
structure OutAssocParams where
  peerSlot : ℕ
  peerAddr : Address
  peerId : BcpId
  flowId : ℕ
  mode : FlowMode
  flowEpoch : UInt8
  waitingCap : ℕ

def resetOutAssoc (oldEpoch : ℕ) (p : OutAssocParams) (now : ℕ) : OutAssociation where
  peerSlot := p.peerSlot
  peerAddr := p.peerAddr
  peerId := p.peerId
  flowId := p.flowId
  mode := p.mode
  flowEpoch := p.flowEpoch
  epoch := u32 (oldEpoch + 1)
  life := .opened
  nextSeq := 1
  unresolved := 0
  lastResolvedMicros := now
  ackBase := 1
  inflightCap := windowFor p.mode
  waitingCap := p.waitingCap
  inFlight := fun _ => .free
  waiting := []

/-- Feedback gathered under a flow lock and applied to the peer afterwards. -/
structure CongestionDelta where
  resolvedBytes : ℕ
  resolvedPackets : ℕ
  ackedBytes : ℕ
  rttSampleMicros : ℕ
  ackDelayMicros : ℕ
  sawLoss : Bool
  lostDeclaredBytes : ℕ
  lostEpoch : ℕ
  sawProbe : Bool
deriving DecidableEq, Repr

def CongestionDelta.zero : CongestionDelta := ⟨0, 0, 0, 0, 0, false, 0, 0, false⟩

/-- `static_cast<int32_t>(a - b)` as the distance from `b` forward to `a`, when positive. -/
def seqAhead (a b : ℕ) : ℕ :=
  let d := (a + 2 ^ 32 - b) % 2 ^ 32
  if d < 2 ^ 31 then d else 0

/-- `static_cast<int8_t>(a - b) > 0`. -/
def epochAhead (a b : ℕ) : Bool :=
  let d := (a + 256 - b) % 256
  decide (0 < d ∧ d < 128)

/-- A verdict of loss names the newest congestion epoch among the lost packets. -/
def CongestionDelta.noteLoss (delta : CongestionDelta) (epoch : ℕ) : CongestionDelta :=
  { delta with
    lostEpoch := if !delta.sawLoss || epochAhead epoch delta.lostEpoch then epoch else delta.lostEpoch
    sawLoss := true }

namespace OutAssociation

/-! ## The send gate -/

def canSend (flow : OutAssociation) (peer : PeerBudget) (wireSize : ℕ) (windowed : Bool) : Bool :=
  if windowed && decide (flow.inflightCap ≤ flow.unresolved) then false
  else if peer.congestionBudget < peer.bytesInFlight + wireSize then false
  else if peer.theirGrant ≠ 0 ∧ peer.theirGrant ≤ peer.outstandingToPeer then false
  else decide ((flow.inFlight (slot flow.inflightCap flow.nextSeq)).seq = 0)

def stampedEntry (flow : OutAssociation) (peer : PeerBudget) (packetSlot : Option ℕ)
    (wireSize : ℕ) (flying : Bool) (now : ℕ) : InFlightEntry where
  sentAtMicros := if flying then now else 0
  seq := flow.nextSeq
  packetSlot := packetSlot
  wireSize := wireSize
  retries := 0
  congestionEpoch := peer.congestionEpoch
  acked := false
  lostByAck := false
  freeResend := false

/-- `StampFlowPacket`: take the ring entry and the next sequence, spend the budget. -/
def stamp (flow : OutAssociation) (peer : PeerBudget) (packetSlot : Option ℕ) (wireSize : ℕ)
    (flying : Bool) (now : ℕ) : OutAssociation × PeerBudget :=
  ({ flow with
      inFlight := put flow.inflightCap flow.inFlight flow.nextSeq
        (flow.stampedEntry peer packetSlot wireSize flying now)
      unresolved := flow.unresolved + 1
      nextSeq := succSeq flow.nextSeq },
    { peer.spendPacing wireSize with
      bytesInFlight := u32 (peer.bytesInFlight + wireSize)
      outstandingToPeer := u32 (peer.outstandingToPeer + 1) })

/-- `EnqueueWaiting`; the caller has checked there is room. -/
def enqueueWaiting (flow : OutAssociation) (packetSlot wireSize now : ℕ) : OutAssociation :=
  { flow with waiting := flow.waiting ++ [⟨now, packetSlot, wireSize⟩] }

end OutAssociation

inductive SendAdmission where
  | sent
  | queued
  | dropped
  | rejected
  | dead
deriving DecidableEq, Repr

namespace OutAssociation

/-- `AdmitOut` once the association is found: stamp on a pass, route to the waiting
queue on a refusal.  Returns the verdict, both records, and any evicted slot. -/
def admitOut (flow : OutAssociation) (peer : PeerBudget) (packetSlot wireSize : ℕ) (flying : Bool)
    (now : ℕ) : SendAdmission × OutAssociation × PeerBudget × List ℕ :=
  if flow.life ≠ .opened then (.dead, flow, peer, [])
  else
    let unreliable := decide (flow.mode = .unreliable)
    let gate := decide (flow.waiting = []) && flow.canSend peer wireSize (!unreliable)
    -- the pacing question is asked, and its refill done, only once there is room
    let paced := if gate then peer.pacingAllows now wireSize else (peer, false)
    if paced.2 then
      let r := flow.stamp paced.1 (if unreliable then none else some packetSlot) wireSize flying now
      (.sent, r.1, r.2, [])
    else if flow.waiting.length < flow.waitingCap then
      (.queued, flow.enqueueWaiting packetSlot wireSize now, paced.1, [])
    else if !unreliable then (.rejected, flow, paced.1, [])
    else
      match flow.waiting with
      | [] => (.dropped, flow, paced.1, [])
      | oldest :: rest =>
        (.queued, ({ flow with waiting := rest }).enqueueWaiting packetSlot wireSize now, paced.1,
          [oldest.packetSlot])

/-- `ClaimWaiting`: stamp the head of the queue if it is still the slot the peek saw. -/
def claimWaiting (flow : OutAssociation) (peer : PeerBudget) (candidateEpoch candidateSlot : ℕ)
    (now : ℕ) : Bool × OutAssociation × PeerBudget :=
  if flow.epoch = candidateEpoch ∧ flow.life = .opened then
    match flow.waiting with
    | [] => (false, flow, peer)
    | head :: rest =>
      let unreliable := decide (flow.mode = .unreliable)
      if head.packetSlot = candidateSlot ∧ flow.canSend peer head.wireSize (!unreliable) then
        let paced := peer.pacingAllows now head.wireSize
        if paced.2 then
          let r := ({ flow with waiting := rest }).stamp paced.1
            (if unreliable then none else some head.packetSlot) head.wireSize true now
          (true, r.1, r.2)
        else (false, flow, paced.1)
      else (false, flow, peer)
  else (false, flow, peer)

/-! ## Resolution -/

/-- What resolving entries accumulates: packets still owed, feedback, and the staging
slots given back. -/
structure Resolved where
  unresolved : ℕ
  delta : CongestionDelta
  released : List ℕ

/-- `ResolveOutEntry`.  An acknowledged entry of an ordered flow keeps its copy. -/
def resolveOutEntry (mode : FlowMode) (acked : Bool) (e : InFlightEntry) (acc : Resolved) :
    InFlightEntry × Resolved :=
  if e.seq = 0 ∨ e.acked = true then (e, acc)
  else
    let delta := { acc.delta with
      resolvedBytes := acc.delta.resolvedBytes + e.wireSize
      resolvedPackets := acc.delta.resolvedPackets + 1 }
    let delta := if acked then { delta with ackedBytes := delta.ackedBytes + e.wireSize }
      else delta.noteLoss e.congestionEpoch
    let unresolved := acc.unresolved - 1
    if acked && isOrdered mode then ({ e with acked := true }, ⟨unresolved, delta, acc.released⟩)
    else
      ({ e with seq := 0, packetSlot := none, wireSize := 0, acked := false },
        ⟨unresolved, delta, acc.released ++ e.packetSlot.toList⟩)

def seqInRanges (seq : ℕ) (ranges : List AckRange) : Bool :=
  ranges.any fun r => decide (r.first ≤ seq ∧ seq ≤ r.last)

/-- The acknowledgement loop's running answers: the highest sequence proven to have
arrived, and the newest one resolved for the first time. -/
structure AckScan where
  resolved : Resolved
  largestAcked : Option ℕ
  sample : Option (ℕ × ℕ × Bool)

/-- One turn of the loop of `ApplyAckRanges`. -/
def ackCell (mode : FlowMode) (remoteRecvNext : ℕ) (ranges : List AckRange) (e : InFlightEntry)
    (acc : AckScan) : InFlightEntry × AckScan :=
  if e.seq = 0 then (e, acc)
  else if e.seq < remoteRecvNext ∨ seqInRanges e.seq ranges = true then
    let largestAcked := match acc.largestAcked with
      | none => e.seq
      | some n => if 0 < seqAhead e.seq n then e.seq else n
    let fresh := !e.acked && (match acc.sample with
      | none => true
      | some (n, _, _) => decide (0 < seqAhead e.seq n))
    let sample := if fresh
      then some (e.seq, e.sentAtMicros, decide (e.retries ≠ 0) || e.lostByAck) else acc.sample
    let r := resolveOutEntry mode true e acc.resolved
    (r.1, ⟨r.2, some largestAcked, sample⟩)
  else (e, acc)

/-- One round-trip sample per acknowledgement, refused for a packet sent twice and for
one whose stamp is the resend marker. -/
def noteSample (sample : Option (ℕ × ℕ × Bool)) (now ackDelay : ℕ) (delta : CongestionDelta) :
    CongestionDelta :=
  match sample with
  | none => delta
  | some (_, sentAt, resent) =>
    if resent = false ∧ sentAt ≠ 0 ∧ sentAt ≤ now then
      let raw := now - sentAt
      let sample := if ackDelay < raw then raw - ackDelay else raw
      { delta with rttSampleMicros := min sample uint32Max, ackDelayMicros := ackDelay }
    else delta

/-- One turn of `DeclareLostBelow`. -/
def lostCell (largestAcked now lossDelay : ℕ) (e : InFlightEntry) (delta : CongestionDelta) :
    InFlightEntry × CongestionDelta :=
  if e.seq = 0 ∨ e.acked = true ∨ e.lostByAck = true then (e, delta)
  else if seqAhead largestAcked e.seq = 0 then (e, delta)
  else
    let farBehind := decide (lossPacketThreshold ≤ seqAhead largestAcked e.seq)
    let longOverdue := decide (e.sentAtMicros ≠ 0 ∧ lossDelay < elapsed now e.sentAtMicros)
    if farBehind || longOverdue then
      ({ e with lostByAck := true, freeResend := true, sentAtMicros := 0 },
        { delta with lostDeclaredBytes := delta.lostDeclaredBytes + e.wireSize }.noteLoss
          e.congestionEpoch)
    else (e, delta)

def declareLostBelow (flow : OutAssociation) (largestAcked now lossDelay : ℕ)
    (delta : CongestionDelta) : OutAssociation × CongestionDelta :=
  if flow.mode = .unreliable then (flow, delta)
  else
    let r := scan (lostCell largestAcked now lossDelay) flow.inflightCap flow.inFlight delta
    ({ flow with inFlight := r.1 }, r.2)

/-- Free the cell of the base, keeping nothing but its congestion epoch, and step over it. -/
def releaseBase (flow : OutAssociation) : OutAssociation :=
  let e := flow.inFlight (slot flow.inflightCap flow.ackBase)
  { flow with
    inFlight := put flow.inflightCap flow.inFlight flow.ackBase
      { InFlightEntry.free with congestionEpoch := e.congestionEpoch }
    ackBase := succSeq flow.ackBase }

/-- The loop of `ReleaseAckedRun`, at most `steps` turns. -/
def releaseAckedRun (remoteRecvNext : ℕ) : ℕ → OutAssociation → OutAssociation × List ℕ
  | 0, flow => (flow, [])
  | steps + 1, flow =>
    if flow.ackBase ≠ flow.nextSeq ∧ flow.ackBase < remoteRecvNext then
      let e := flow.inFlight (slot flow.inflightCap flow.ackBase)
      if e.seq = flow.ackBase then
        if e.acked then
          let rest := releaseAckedRun remoteRecvNext steps flow.releaseBase
          (rest.1, e.packetSlot.toList ++ rest.2)
        else (flow, [])
      else releaseAckedRun remoteRecvNext steps { flow with ackBase := succSeq flow.ackBase }
    else (flow, [])

/-- The loop of `ApplyAckRanges` over the whole ring. -/
def resolveAcked (flow : OutAssociation) (ack : AckEntry) (delta : CongestionDelta) :
    OutAssociation × AckScan :=
  let r := scan (ackCell flow.mode ack.recvNext ack.ranges) flow.inflightCap flow.inFlight
    ⟨⟨flow.unresolved, delta, []⟩, none, none⟩
  ({ flow with inFlight := r.1, unresolved := r.2.resolved.unresolved }, r.2)

/-- An acknowledgement that proves an arrival restarts the death clock and may turn what
lies below it into losses. -/
def judgeLoss (flow : OutAssociation) (largestAcked : Option ℕ) (now lossDelay : ℕ)
    (delta : CongestionDelta) : OutAssociation × CongestionDelta :=
  match largestAcked with
  | none => (flow, delta)
  | some largestAcked =>
    ({ flow with lastResolvedMicros := now }).declareLostBelow largestAcked now lossDelay delta

/-- `ApplyAckRanges` once the association is found. -/
def applyAck (timers : FlowTimers) (rtt : RttEstimate) (flow : OutAssociation) (ack : AckEntry)
    (now : ℕ) (delta : CongestionDelta) : OutAssociation × CongestionDelta × List ℕ :=
  if flow.flowId = ack.flowId ∧ flow.flowEpoch = ack.flowEpoch then
    let r := flow.resolveAcked ack delta
    let delta := noteSample r.2.sample now ack.ackDelay r.2.resolved.delta
    let judged := r.1.judgeLoss r.2.largestAcked now
      (rtt.lossDelayMicros timers.retryIntervalMicros) delta
    let run := releaseAckedRun ack.recvNext judged.1.inflightCap judged.1
    (run.1, judged.2, r.2.resolved.released ++ run.2)
  else (flow, delta, [])

/-! ## Retransmission -/

/-- The bound a sending association dies by. -/
def deathBound (timers : FlowTimers) (rtt : RttEstimate) : ℕ :=
  max (flowDeathRounds * rtt.baseTimeout timers.retryIntervalMicros timers.ackDelayMicros)
    timers.retryIntervalMicros

/-- The probe deadline: backed off, but short enough for the probes the death needs. -/
def probeTimeout (timers : FlowTimers) (rtt : RttEstimate) (now : ℕ) : ℕ :=
  min (rtt.retransmitTimeout timers.retryIntervalMicros timers.ackDelayMicros now)
    (max (deathBound timers rtt / flowDeathMinProbes)
      (rtt.baseTimeout timers.retryIntervalMicros timers.ackDelayMicros))

/-- The retransmit loop's accumulator: resolutions, the peer's pacing, and the resends
collected so far, oldest cell first. -/
structure RetransmitScan where
  resolved : Resolved
  peer : PeerBudget
  resends : List (ℕ × ℕ)

/-- Collect one entry for a resend if the per-tick budget and the clock allow it. -/
def collect (now : ℕ) (probe : Bool) (e : InFlightEntry) (acc : RetransmitScan) :
    InFlightEntry × RetransmitScan :=
  match e.packetSlot with
  | none => (e, acc)
  | some packetSlot =>
    if acc.resends.length < resendsPerAssocPerTick then
      let paced := acc.peer.pacingAllows now e.wireSize
      if paced.2 then
        let resolved := if probe
          then { acc.resolved with delta := { acc.resolved.delta with sawProbe := true } }
          else acc.resolved
        let e' := { e with sentAtMicros := now }
        let e' := if !probe then e'
          else if e.freeResend then { e' with freeResend := false }
          else { e' with retries := min (e.retries + 1) uint8Max }
        (e', ⟨resolved, paced.1.spendPacing e.wireSize, acc.resends ++ [(e.seq, packetSlot)]⟩)
      else (e, { acc with peer := paced.1 })
    else (e, acc)

/-- One turn of the loop of `RetransmitInflight`. -/
def retransmitCell (timers : FlowTimers) (mode : FlowMode) (now rto : ℕ) (e : InFlightEntry)
    (acc : RetransmitScan) : InFlightEntry × RetransmitScan :=
  if e.seq = 0 then (e, acc)
  else if e.acked then
    if e.sentAtMicros = 0 ∨ elapsed now e.sentAtMicros < timers.flowStallTimeout then (e, acc)
    else collect now false e acc
  else if elapsed now e.sentAtMicros < rto then (e, acc)
  else if mode = .unreliable then
    let r := resolveOutEntry mode false e acc.resolved
    (r.1, { acc with resolved := r.2 })
  else collect now true e acc

/-- What a retransmit pass reports. -/
structure RetransmitResult where
  flow : OutAssociation
  peer : PeerBudget
  delta : CongestionDelta
  resends : List (ℕ × ℕ)
  released : List ℕ
  assocDead : Bool

def retransmitInflight (timers : FlowTimers) (flow : OutAssociation) (peer : PeerBudget)
    (now : ℕ) (delta : CongestionDelta) : RetransmitResult :=
  if 0 < flow.unresolved ∧ deathBound timers peer.rtt < elapsed now flow.lastResolvedMicros then
    ⟨flow, peer, delta, [], [], true⟩
  else
    let r := scan (retransmitCell timers flow.mode now (probeTimeout timers peer.rtt now))
      flow.inflightCap flow.inFlight ⟨⟨flow.unresolved, delta, []⟩, peer, []⟩
    ⟨{ flow with inFlight := r.1, unresolved := r.2.resolved.unresolved }, r.2.peer,
      r.2.resolved.delta, r.2.resends, r.2.resolved.released, false⟩

def refundOne (flow : OutAssociation) (seq : ℕ) : OutAssociation :=
  let e := flow.inFlight (slot flow.inflightCap seq)
  if e.seq ≠ seq ∨ e.acked = true then flow
  else { flow with
    inFlight := put flow.inflightCap flow.inFlight seq
      { e with retries := e.retries - 1, sentAtMicros := 0 } }

def refundResendAttempts (flow : OutAssociation) (seqs : List ℕ) : OutAssociation :=
  seqs.foldl refundOne flow

/-- Closed, failed or swept: the ring and the queue are emptied and nothing is owed. -/
def tearDown (flow : OutAssociation) (life : FlowLifecycle) : OutAssociation :=
  { flow with life := life, inFlight := fun _ => .free, unresolved := 0, waiting := [] }

end OutAssociation

end BcpFlux.Flow
