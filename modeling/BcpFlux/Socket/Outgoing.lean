import BcpFlux.Flow.Batching
import BcpFlux.Flow.Outbound
import BcpFlux.Socket.Session
import BcpFlux.Wire.Builder

/-! # The way out of a socket, towards one address

Everything between a send and the seal: `SocketSender`, `OfferToBatch` and the flush
of a batch, `PreProcessOut`, the pending list, the waiting ring, the retransmit pass,
and the handshake as far as the send path reads it.  What the
kernel, the pools, the clock and the peer's budget answer is part of the step, and with
every packet travels the list of messages the application put into it.
-/

namespace BcpFlux.Socket
open Library Wire BcpFlux.Flow Peer Function

/-- A message as the application handed it over: the level it was built at, and whether it
was sent with `SendSecured` or `RespondSecured`. -/
structure Message where
  content : List UInt8
  level : Security
  secured : Bool
deriving DecidableEq, Repr

/-- A packet slot, and the messages in it. -/
structure Parcel where
  bytes : Datagram
  carries : List Message
deriving DecidableEq, Repr

structure PendingPacket where
  requireAuth : Bool
  keepsBodyForResend : Bool
  packet : Parcel
deriving DecidableEq, Repr

/-- What the send path reads of a peer entry. -/
structure SendPeer where
  /-- `IsValid`: the handshake state is `ESTABLISHED`. -/
  established : Bool
  authenticated : Bool
deriving DecidableEq, Repr

def SendPeer.blank : SendPeer := ⟨false, false⟩

/-- A sending association with its open batch and, while one is open, the messages in it. -/
structure SendFlow where
  assoc : OutAssociation
  batch : OpenBatch
  carries : List Message

/-- A packet handed to the kernel, how it was sealed (`none` flies plain), and the flag of
the peer it was sealed to. -/
structure Departure where
  kind : Option SealKind
  packet : Parcel
  authenticated : Bool
deriving DecidableEq, Repr

inductive SendStatus where
  | ok
  | invalidState
  | notAuthenticated
  | malformed
  | tooManyPending
  | poolExhausted
  | tooLarge
  | connectFailed
  | ioFailed
  | sendFailed
deriving DecidableEq, Repr

structure SendPath where
  peer : Option SendPeer
  /-- The sending associations of the peer, by flow id. -/
  flows : ℕ → Option SendFlow
  /-- Slots of the staging pool that associations of this peer hold. -/
  staging : ℕ → Option Parcel
  /-- Slots of the kernel's send pool that waiting rings of this peer hold. -/
  sendPool : ℕ → Option Parcel
  pending : List PendingPacket
  /-- Taken off the pending list and not yet sent, with the flag read when they were taken. -/
  detached : List (PendingPacket × Bool)
  /-- Batches sealed whose flush has not been settled: flow id and size. -/
  unsettled : List (ℕ × ℕ)
  departed : List Departure

/-- What the environment answers during one pass through `PreProcessOut`. -/
structure Choices where
  /-- The pool slot the packet was built in. -/
  slot : ℕ
  /-- `Connect` registers an unknown peer. -/
  connects : Bool
  /-- The kernel pool has a slot for the sealed copy. -/
  wireSlot : Bool
  /-- The pending pool has a slot. -/
  pendingSlot : Bool
  /-- What `CreateAssociation` builds, when it can. -/
  created : Option OutAssocParams
  oldEpoch : ℕ
  budget : PeerBudget
  now : ℕ
  /-- `sendto` takes the packet `SendNow` hands to the kernel. -/
  taken : Bool

/-! ## Packets -/

/-- The sequence and the generation `StampFlowPacket` writes into the flow header. -/
def stampBytes (d : Datagram) (seq : ℕ) (flowEpoch : UInt8) : Datagram :=
  let offset := d.flowHeaderOffset
  d.take (offset + 2) ++ leBytes 4 seq ++
    [(d.flowData &&& ~~~(flowEpochMask <<< 3)) ||| (flowEpoch <<< 3)] ++ d.drop (offset + 7)

def Parcel.stamp (p : Parcel) (flow : OutAssociation) : Parcel :=
  { p with bytes := stampBytes p.bytes flow.nextSeq flow.flowEpoch }

def sealKindOf (d : Datagram) : SealKind := if d.isMacOnly then .macOnly else .encrypted

/-- The caller framed the packet as part of a larger message. -/
def isHandFramed (d : Datagram) : Bool := d.flowData &&& (flowPartMore ||| flowPartCont) != 0

/-- The size of the datagram; a seal appends its tag. -/
def Departure.wireSize (d : Departure) : ℕ :=
  d.packet.bytes.length + if d.kind.isSome then wireTagSize else 0

/-- `SendTo` of the kernel. -/
def Departure.sendTo (d : Departure) (taken : Bool) : SendStatus :=
  if maxWirePacketSize < d.wireSize then .tooLarge else if taken then .ok else .sendFailed

namespace SendPath

/-- The pool a body is built in: staging when it is its own retransmit source. -/
def pool (s : SendPath) (retained : Bool) : ℕ → Option Parcel :=
  if retained then s.staging else s.sendPool

def store (s : SendPath) (retained : Bool) (slot : ℕ) (p : Parcel) : SendPath :=
  if retained then { s with staging := update s.staging slot (some p) }
  else { s with sendPool := update s.sendPool slot (some p) }

def setFlow (s : SendPath) (flowId : ℕ) (flow : SendFlow) : SendPath :=
  { s with flows := update s.flows flowId (some flow) }

def releaseStaging (s : SendPath) (slots : List ℕ) : SendPath :=
  { s with staging := fun a => if a ∈ slots then none else s.staging a }

def releaseSendPool (s : SendPath) (slots : List ℕ) : SendPath :=
  { s with sendPool := fun a => if a ∈ slots then none else s.sendPool a }

def depart (s : SendPath) (kind : Option SealKind) (p : Parcel) (authenticated : Bool) :
    SendPath :=
  { s with departed := s.departed ++ [⟨kind, p, authenticated⟩] }

/-- `pending::Push`. -/
def park (s : SendPath) (p : Parcel) (requireAuth retained pendingSlot : Bool) :
    SendPath × SendStatus :=
  if maxWirePacketSize < p.bytes.length then (s, .tooLarge)
  else if !pendingSlot then (s, .poolExhausted)
  else ({ s with pending := s.pending ++ [⟨requireAuth, retained, p⟩] }, .ok)

/-! ## Admission and the seal -/

/-- The association an admission runs on: the one in the directory, or a new one. -/
def findOrCreate (s : SendPath) (flowId : ℕ) (c : Choices) : Option SendFlow :=
  if flowId = invalidFlowId then none
  else match s.flows flowId with
    | some flow => some flow
    | none => c.created.map fun params =>
      ⟨resetOutAssoc c.oldEpoch { params with flowId := flowId } c.now, .empty, []⟩

/-- `AdmitOut`: the verdict, the packet as the admission leaves it, and the state. -/
def admitFlow (s : SendPath) (p : Parcel) (flying : Bool) (c : Choices) :
    SendAdmission × Parcel × SendPath :=
  match s.findOrCreate p.bytes.flowId c with
  | none => (.dead, p, s)
  | some flow =>
    let r := flow.assoc.admitOut c.budget c.slot p.bytes.length flying c.now
    (r.1, if r.1 = .sent then p.stamp flow.assoc else p,
      (s.setFlow p.bytes.flowId { flow with assoc := r.2.1 }).releaseSendPool r.2.2.2)

/-- What follows an admission that stamped the packet: seal it, or keep it for the session. -/
def afterStamp (s : SendPath) (peer : SendPeer) (p : Parcel) (requireAuth retained : Bool)
    (c : Choices) : SendPath × Option Departure × SendStatus :=
  if peer.established then
    let s := if retained then s.store true c.slot p else s
    (s.depart (some (sealKindOf p.bytes)) p peer.authenticated,
      some ⟨some (sealKindOf p.bytes), p, peer.authenticated⟩, .ok)
  else if retained then (s.store true c.slot p, none, .ok)
  else
    let r := s.park p requireAuth retained c.pendingSlot
    (r.1, none, r.2)

/-- The flow branch of `PreProcessOut`. -/
def sendOnFlow (s : SendPath) (peer : SendPeer) (p : Parcel) (requireAuth retained : Bool)
    (c : Choices) : SendPath × Option Departure × SendStatus :=
  if retained && peer.established && !c.wireSlot then (s, none, .poolExhausted)
  else
    let r := s.admitFlow p peer.established c
    match r.1 with
    | .sent => r.2.2.afterStamp peer r.2.1 requireAuth retained c
    -- the waiting ring owns the slot now, and no requirement goes with it
    | .queued => (r.2.2.store retained c.slot p, none, .ok)
    | .dropped => (r.2.2, none, .ok)
    | .rejected => (r.2.2, none, .tooManyPending)
    | .dead => (r.2.2, none, .invalidState)

/-- `PreProcessOut` once the peer is known. -/
def preProcessKnown (s : SendPath) (peer : SendPeer) (p : Parcel) (requireAuth retained : Bool)
    (c : Choices) : SendPath × Option Departure × SendStatus :=
  if peer.established && requireAuth && !peer.authenticated then (s, none, .notAuthenticated)
  else if !p.bytes.isSecure then
    if peer.established then
      (s.depart none p peer.authenticated, some ⟨none, p, peer.authenticated⟩, .ok)
    else
      let r := s.park p requireAuth (p.bytes.hasFlow && retained) c.pendingSlot
      (r.1, none, r.2)
  else if p.bytes.length < p.bytes.headSize then (s, none, .malformed)
  else if p.bytes.hasFlow then s.sendOnFlow peer p requireAuth retained c
  else s.afterStamp peer p requireAuth false c

/-- `PreProcessOut` on everything but handshake packets.  The packet handed back is the one
the caller puts on the wire. -/
def preProcessOut (s : SendPath) (p : Parcel) (requireAuth retained : Bool) (c : Choices) :
    SendPath × Option Departure × SendStatus :=
  match s.peer with
  | some peer => s.preProcessKnown peer p requireAuth retained c
  | none =>
    if c.connects then
      ({ s with peer := some .blank }).preProcessKnown .blank p requireAuth retained c
    else (s, none, .connectFailed)

/-! ## Batches -/

/-- Settle a flush of a flow's batch. -/
def finishBatchOf (s : SendPath) (flowId size : ℕ) (sent : Bool) : SendPath :=
  match s.flows flowId with
  | none => s
  | some flow => s.setFlow flowId { flow with batch := flow.batch.finishBatch size sent }

/-- The pool a batch of this flow is copied into. -/
def retains (flow : SendFlow) : Bool := decide (flow.assoc.mode ≠ .unreliable)

/-- `SealOneBatch`: the size of the batch that was sealed and has to be settled, if any. -/
def sealOneBatch (s : SendPath) (flowId : ℕ) (c : Choices) : SendPath × Option ℕ × SendStatus :=
  match s.flows flowId with
  | none => (s, none, .ok)
  | some flow =>
    if !flow.batch.peekBatch then (s, none, .ok)
    else if (s.pool (retains flow) c.slot).isSome then (s, none, .poolExhausted)
    else if s.peer.isNone then (s, none, .ok)
    else match flow.batch.takeBatch maxWirePacketSize with
      | (none, _) => (s, none, .ok)
      | (some bytes, batch) =>
        let r := (s.setFlow flowId { flow with batch := batch }).preProcessOut
          ⟨bytes, flow.carries⟩ false (retains flow) c
        match r.2.1 with
        | some _ => (r.1, some bytes.length, r.2.2)
        -- the gate consumed it, so the flush is settled here
        | none => (r.1.finishBatchOf flowId bytes.length (decide (r.2.2 = .ok)), none, r.2.2)

/-- `FlushOneBatch`; `left` is the kernel's answer. -/
def flushOneBatch (s : SendPath) (flowId : ℕ) (c : Choices) (left : Bool) :
    SendPath × SendStatus :=
  let r := s.sealOneBatch flowId c
  match r.2.1 with
  | none => (r.1, r.2.2)
  | some size => (r.1.finishBatchOf flowId size left, if left then .ok else .ioFailed)

/-- `FlushFlowOf`: whether nothing is queued ahead of the caller any more. -/
def flushFlowOf (s : SendPath) (flowId : ℕ) (c : Choices) (left : Bool) : SendPath × Bool :=
  if s.peer.isNone || (s.flows flowId).isNone then (s, true)
  else
    let r := s.flushOneBatch flowId c left
    (r.1, match r.1.flows flowId with
      | none => true
      | some flow => !flow.batch.peekBatch)

/-- `WouldAdmit`. -/
def wouldAdmit (flow : OutAssociation) (budget : PeerBudget) (wireSize : ℕ) : Bool :=
  decide (flow.life = .opened) && decide (flow.waiting = []) &&
    flow.canSend budget wireSize (decide (flow.mode ≠ .unreliable))

/-- Empty the batch first, so that what was sent first takes the lower sequence; then the
packet may go on its own. -/
def goAround (s : SendPath) (flowId : ℕ) (c : Choices) (left : Bool) :
    SendPath × Option SendStatus :=
  let r := s.flushFlowOf flowId c left
  (r.1, if r.2 then none else some .tooManyPending)

def batched (flow : SendFlow) : List Message :=
  if flow.batch.buffer = [] then [] else flow.carries

def appendTo (s : SendPath) (flowId : ℕ) (p : Parcel) : SendPath × BatchAdmit :=
  match s.flows flowId with
  | none => (s, .rejected)
  | some flow =>
    let r := flow.batch.appendToBatch p.bytes maxWirePacketSize
    (if r.1 = .appended
      then s.setFlow flowId { flow with batch := r.2, carries := batched flow ++ p.carries }
      else s, r.1)

def admitStatus (verdict : BatchAdmit) : SendStatus :=
  if verdict = .appended then .ok else .tooManyPending

/-- The append of `OfferToBatch`, with a flush in between when the batch is full. -/
def joinBatch (s : SendPath) (flowId : ℕ) (p : Parcel) (c : Choices) (left : Bool) :
    SendPath × SendStatus :=
  let r := s.appendTo flowId p
  if r.2 = .sealed then
    let flushed := s.flushOneBatch flowId c left
    if flushed.2 ≠ .ok then flushed
    else
      let r := flushed.1.appendTo flowId p
      (r.1, admitStatus r.2)
  else (r.1, admitStatus r.2)

/-- The association whose batch a packet may be offered to: found under the peer's borrow,
with a session, the required identity and an association that exists. -/
def offerTarget (s : SendPath) (p : Parcel) (requireAuth : Bool) : Option SendFlow :=
  match s.peer with
  | none => none
  | some peer =>
    if !peer.established || (requireAuth && !peer.authenticated) then none
    else s.flows p.bytes.flowId

/-- `OfferToBatch`: `none` sends the packet the ordinary way. -/
def offerToBatch (s : SendPath) (p : Parcel) (requireAuth : Bool) (c : Choices) (left : Bool) :
    SendPath × Option SendStatus :=
  if !p.bytes.hasFlow || !p.bytes.isSecure then (s, none)
  else if isHandFramed p.bytes then s.goAround p.bytes.flowId c left
  else match s.offerTarget p requireAuth with
    | none => (s, none)
    | some flow =>
      if !wouldAdmit flow.assoc c.budget p.bytes.length then s.goAround p.bytes.flowId c left
      else
        let r := s.joinBatch p.bytes.flowId p c left
        (r.1, some r.2)

/-- `SocketSender::Send`: the flush inside the offer and the packet's own way out get their
own answers. -/
def sendPacket (s : SendPath) (p : Parcel) (requireAuth retained : Bool) (flush own : Choices)
    (left : Bool) : SendPath × SendStatus :=
  let offered := s.offerToBatch p requireAuth flush left
  match offered.2 with
  | some status => (offered.1, status)
  | none =>
    let r := offered.1.preProcessOut p requireAuth retained own
    (r.1, match r.2.1 with
      | some d => d.sendTo own.taken
      | none => r.2.2)

end SendPath

/-! ## Steps -/

/-- One send of the application. -/
structure Submission where
  content : List UInt8
  level : Security
  tagged : Bool
  target : Option FlowTarget
  secured : Bool
deriving DecidableEq, Repr

/-- The body of a reliable flow is its own retransmit source. -/
def Submission.retained (m : Submission) : Bool :=
  match m.target with
  | none => false
  | some target => decide (target.mode ≠ .unreliable)

def Submission.message (m : Submission) : Message := ⟨m.content, m.level, m.secured⟩

inductive SendEvent where
  /-- `Send`, `SendSecured` or one of the responses, from the builder on. -/
  | send (m : Submission) (flush own : Choices) (left : Bool)
  /-- One batch of a `Flush` round is sealed. -/
  | sealBatch (flowId : ℕ) (c : Choices)
  /-- `SendSealed` reports the oldest sealed batch. -/
  | settleBatch (left : Bool)
  /-- `FlushPending` takes up to a batch of packets off the pending list. -/
  | detachPending
  /-- `FlushPending` sends the first packet it took. -/
  | sendDetached (flush own : Choices) (left : Bool)
  /-- `UpdateOutFlow`; `left i` says whether the `i`-th resend got a wire slot. -/
  | retransmit (flowId : ℕ) (left : ℕ → Bool) (budget : PeerBudget) (now : ℕ)
  /-- One turn of `DrainWaitingSends` on the candidate it peeked. -/
  | drainWaiting (flowId candidateEpoch candidateSlot : ℕ) (left : Bool) (budget : PeerBudget)
      (now : ℕ)
  /-- An acknowledgement resolves packets of a flow. -/
  | acknowledge (flowId : ℕ) (ack : AckEntry) (rtt : RttEstimate) (now : ℕ)
  /-- A rejection fails an association, or the application closes the flow. -/
  | failFlow (flowId : ℕ)
  | closeFlow (flowId : ℕ)
  /-- `Connect` registers the peer. -/
  | connect
  /-- `Handshake_Complete` on a waiting entry, with what the certificate store answered. -/
  | complete (trusted : Bool)
  /-- `Handshake_Validate` establishes, or re-keys, the entry. -/
  | validate
  | removePeer

namespace SendPath

def heldSlots (flow : OutAssociation) : List ℕ :=
  ((List.range flow.inflightCap).filterMap fun i => (flow.inFlight i).packetSlot) ++
    flow.waiting.map WaitingEntry.packetSlot

def releaseHeld (s : SendPath) (flow : OutAssociation) : SendPath :=
  if flow.mode = .unreliable then s.releaseSendPool (heldSlots flow)
  else s.releaseStaging (heldSlots flow)

/-- `FailAssoc`. -/
def failFlow (s : SendPath) (flowId : ℕ) : SendPath :=
  match s.flows flowId with
  | none => s
  | some flow =>
    if flow.assoc.life = .closed ∨ flow.assoc.life = .failed then s
    else (s.releaseHeld flow.assoc).setFlow flowId
      { flow with assoc := flow.assoc.tearDown .failed }

/-- `FreeAssoc` after the directory entry is gone. -/
def closeFlow (s : SendPath) (flowId : ℕ) : SendPath :=
  match s.flows flowId with
  | none => s
  | some flow =>
    { s.releaseHeld flow.assoc with flows := update s.flows flowId none }

/-- The copies a retransmit pass seals, read from staging. -/
def resealed (s : SendPath) (authenticated : Bool) (left : ℕ → Bool) (resends : List (ℕ × ℕ)) :
    List Departure :=
  (resends.zipIdx.filter fun r => left r.2).filterMap fun r =>
    (s.staging r.1.2).map fun p => ⟨some (sealKindOf p.bytes), p, authenticated⟩

/-- `UpdateOutFlow`: it waits for the session and asks nothing else of the peer. -/
def retransmit (timers : FlowTimers) (s : SendPath) (flowId : ℕ) (left : ℕ → Bool)
    (budget : PeerBudget) (now : ℕ) : SendPath :=
  match s.peer, s.flows flowId with
  | some peer, some flow =>
    if peer.established ∧ flow.assoc.life = .opened then
      let r := flow.assoc.retransmitInflight timers budget now .zero
      if r.assocDead then s.failFlow flowId
      else
        let unsent := (r.resends.zipIdx.filter fun r => !left r.2).map fun r => r.1.1
        { (s.releaseStaging r.released).setFlow flowId
            { flow with assoc := r.flow.refundResendAttempts unsent } with
          departed := s.departed ++ s.resealed peer.authenticated left r.resends }
    else s
  | _, _ => s

/-- A claimed packet leaves: an unreliable body is sealed in place, always encrypted, and
its slot is released; a reliable one stays in staging. -/
def leaveWaiting (s : SendPath) (peer : SendPeer) (flow : OutAssociation) (slot : ℕ) (p : Parcel)
    (left : Bool) : SendPath :=
  if flow.mode = .unreliable then
    (s.releaseSendPool [slot]).depart (some .encrypted) p peer.authenticated
  else if left then
    (s.store true slot p).depart (some (sealKindOf p.bytes)) p peer.authenticated
  else s.store true slot p

/-- One turn of `DrainWaitingSends`. -/
def drainWaiting (s : SendPath) (flowId candidateEpoch candidateSlot : ℕ) (left : Bool)
    (budget : PeerBudget) (now : ℕ) : SendPath :=
  match s.peer, s.flows flowId with
  | some peer, some flow =>
    if peer.established then
      match s.pool (retains flow) candidateSlot with
      | none => s
      | some p =>
        let r := flow.assoc.claimWaiting budget candidateEpoch candidateSlot now
        let s := s.setFlow flowId { flow with assoc := r.2.1 }
        if r.1 then s.leaveWaiting peer flow.assoc candidateSlot (p.stamp flow.assoc) left else s
    else s
  | _, _ => s

def acknowledge (timers : FlowTimers) (s : SendPath) (flowId : ℕ) (ack : AckEntry)
    (rtt : RttEstimate) (now : ℕ) : SendPath :=
  match s.flows flowId with
  | none => s
  | some flow =>
    let r := flow.assoc.applyAck timers rtt ack now .zero
    (s.releaseStaging r.2.2).setFlow flowId { flow with assoc := r.1 }

def flushPendingRound : ℕ := 32

def detachPending (s : SendPath) : SendPath :=
  match s.peer with
  | none => s
  | some peer =>
    { s with
      pending := s.pending.drop flushPendingRound
      detached := s.detached ++
        (s.pending.take flushPendingRound).map fun pp => (pp, peer.authenticated) }

def sendDetached (s : SendPath) (flush own : Choices) (left : Bool) : SendPath :=
  match s.detached with
  | [] => s
  | (pp, authenticated) :: rest =>
    let s := { s with detached := rest }
    -- judged now that the peer has proved itself, or not
    if pp.requireAuth && !authenticated then s
    else if (s.pool pp.keepsBodyForResend own.slot).isSome then s
    else (s.sendPacket pp.packet pp.requireAuth pp.keepsBodyForResend flush own left).1

/-- From the builder to the sender, in a free slot of the body's pool. -/
def submit (s : SendPath) (m : Submission) (flush own : Choices) (left : Bool) : SendPath :=
  match buildPacket m.level m.tagged m.target m.content with
  | none => s
  | some bytes =>
    if (s.pool m.retained own.slot).isSome then s
    else (s.sendPacket ⟨bytes, [m.message]⟩ m.secured m.retained flush own left).1

def settleBatch (s : SendPath) (left : Bool) : SendPath :=
  match s.unsettled with
  | [] => s
  | (flowId, size) :: rest => ({ s with unsettled := rest }).finishBatchOf flowId size left

def sealBatch (s : SendPath) (flowId : ℕ) (c : Choices) : SendPath :=
  let r := s.sealOneBatch flowId c
  match r.2.1 with
  | none => r.1
  | some size => { r.1 with unsettled := r.1.unsettled ++ [(flowId, size)] }

def step (timers : FlowTimers) (s : SendPath) : SendEvent → SendPath
  | .send m flush own left => s.submit m flush own left
  | .sealBatch flowId c => s.sealBatch flowId c
  | .settleBatch left => s.settleBatch left
  | .detachPending => s.detachPending
  | .sendDetached flush own left => s.sendDetached flush own left
  | .retransmit flowId left budget now => s.retransmit timers flowId left budget now
  | .drainWaiting flowId epoch slot left budget now =>
    s.drainWaiting flowId epoch slot left budget now
  | .acknowledge flowId ack rtt now => s.acknowledge timers flowId ack rtt now
  | .failFlow flowId => s.failFlow flowId
  | .closeFlow flowId => s.closeFlow flowId
  | .connect => if s.peer.isNone then { s with peer := some .blank } else s
  | .complete trusted =>
    match s.peer with
    | some ⟨false, _⟩ => { s with peer := some ⟨true, trusted⟩ }
    | _ => s
  -- only the initiator's side judges a certificate
  | .validate => { s with peer := some ⟨true, (s.peer.getD .blank).authenticated⟩ }
  | .removePeer =>
    { s with
      peer := none
      flows := fun _ => none
      staging := fun _ => none
      sendPool := fun _ => none
      pending := [] }

def initial : SendPath := ⟨none, fun _ => none, fun _ => none, fun _ => none, [], [], [], []⟩

end SendPath

end BcpFlux.Socket
