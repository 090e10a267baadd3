import BcpFlux.Flow.Outbound
import BcpFlux.Flow.ReceiverOrder

/-! # One reliable flow between two sockets

A sending association with its staging pool, the matching receiving association,
and a network between them.  Everything ever put on the wire stays available to
the network, which delivers any of it, in any order and any number of times;
a packet or report it never delivers is lost.
-/

namespace BcpFlux.Flow
open Library Peer Function

/-- A packet body in the staging pool; the sequence is zero until it is stamped. -/
structure Staged where
  seq : ℕ
  payload : List UInt8
deriving DecidableEq, Repr

/-- A slot of the staging pool: free, leased by another association, or by this one. -/
inductive StagingCell where
  | free
  | foreign
  | ours (body : Staged)
deriving DecidableEq, Repr

/-! ## The sending side -/

structure SenderSide where
  assoc : OutAssociation
  staging : ℕ → StagingCell
  /-- Every body handed to the network. -/
  data : List Staged
  /-- Every body stamped so far. -/
  stamped : List Staged

/-- What happens at the sender on its own account. -/
inductive SenderEvent where
  /-- A message built in a free staging slot and offered to the flow. -/
  | send (payload : List UInt8) (stagingSlot wireSize : ℕ) (flying left : Bool)
      (peer : PeerBudget) (now : ℕ)
  /-- The drain claims the head of the waiting queue. -/
  | drain (candidateEpoch candidateSlot : ℕ) (left : Bool) (peer : PeerBudget) (now : ℕ)
  /-- A retransmit pass; `left i` says whether the kernel took the `i`-th resend. -/
  | tick (left : ℕ → Bool) (peer : PeerBudget) (now : ℕ)
  | foreignLease (stagingSlot : ℕ)
  | foreignRelease (stagingSlot : ℕ)
  /-- The application closes the flow, or the peer rejects it or goes away. -/
  | teardown (life : FlowLifecycle)

namespace SenderSide

def recordStamp (x : SenderSide) (assoc : OutAssociation) (stagingSlot : ℕ) (body : Staged)
    (flies : Bool) : SenderSide where
  assoc := assoc
  staging := update x.staging stagingSlot (.ours body)
  data := if flies then x.data ++ [body] else x.data
  stamped := x.stamped ++ [body]

/-- `AcquireFlowWriter`, the build, and the admission of one message. -/
def send (x : SenderSide) (payload : List UInt8) (stagingSlot wireSize : ℕ) (flying left : Bool)
    (peer : PeerBudget) (now : ℕ) : SenderSide :=
  if x.staging stagingSlot = .free then
    let r := x.assoc.admitOut peer stagingSlot wireSize flying now
    match r.1 with
    | .sent => x.recordStamp r.2.1 stagingSlot ⟨x.assoc.nextSeq, payload⟩ (flying && left)
    | .queued =>
      { x with
        assoc := r.2.1
        staging := update x.staging stagingSlot (.ours ⟨0, payload⟩) }
    -- refused: the handle gives the slot back
    | _ => { x with assoc := r.2.1 }
  else x

def drain (x : SenderSide) (candidateEpoch candidateSlot : ℕ) (left : Bool) (peer : PeerBudget)
    (now : ℕ) : SenderSide :=
  match x.staging candidateSlot with
  | .ours body =>
    let r := x.assoc.claimWaiting peer candidateEpoch candidateSlot now
    if r.1 then
      x.recordStamp r.2.1 candidateSlot { body with seq := x.assoc.nextSeq } left
    else { x with assoc := r.2.1 }
  | _ => x

def release (x : SenderSide) (released : List ℕ) : SenderSide :=
  { x with staging := fun a => if a ∈ released then .free else x.staging a }

def teardown (x : SenderSide) (life : FlowLifecycle) : SenderSide :=
  { x with
    assoc := x.assoc.tearDown life
    staging := fun a => match x.staging a with
      | .ours _ => .free
      | cell => cell }

/-- The copies of a resend list that the kernel took, read from staging. -/
def resentCopies (x : SenderSide) (left : ℕ → Bool) (resends : List (ℕ × ℕ)) : List Staged :=
  (resends.zipIdx.filter fun r => left r.2).filterMap fun r =>
    match x.staging r.1.2 with
    | .ours body => some body
    | _ => none

/-- `UpdateOutFlow` on this association: retransmit, fail if dead, refund what did not leave. -/
def tick (timers : FlowTimers) (x : SenderSide) (left : ℕ → Bool) (peer : PeerBudget) (now : ℕ) :
    SenderSide :=
  if x.assoc.life = .opened then
    let r := x.assoc.retransmitInflight timers peer now .zero
    if r.assocDead then x.teardown .failed
    else
      let unsent := (r.resends.zipIdx.filter fun r => !left r.2).map fun r => r.1.1
      { x.release r.released with
        assoc := r.flow.refundResendAttempts unsent
        data := x.data ++ x.resentCopies left r.resends }
  else x

def acknowledge (timers : FlowTimers) (x : SenderSide) (ack : AckEntry) (rtt : RttEstimate)
    (now : ℕ) : SenderSide :=
  let r := x.assoc.applyAck timers rtt ack now .zero
  { x.release r.2.2 with assoc := r.1 }

def step (timers : FlowTimers) (x : SenderSide) : SenderEvent → SenderSide
  | .send payload stagingSlot wireSize flying left peer now =>
    x.send payload stagingSlot wireSize flying left peer now
  | .drain candidateEpoch candidateSlot left peer now =>
    x.drain candidateEpoch candidateSlot left peer now
  | .tick left peer now => x.tick timers left peer now
  | .foreignLease a =>
    if x.staging a = .free then { x with staging := update x.staging a .foreign } else x
  | .foreignRelease a =>
    if x.staging a = .foreign then { x with staging := update x.staging a .free } else x
  | .teardown life => if life = .opened then x else x.teardown life

end SenderSide

/-! ## The receiving side -/

structure ReceiverSide where
  assoc : InAssociation
  pushed : List Ready
  /-- Every report handed to the network. -/
  acks : List AckEntry

namespace ReceiverSide

/-- Deliver into the association, reclaim it, or report on it. -/
def step (timers : FlowTimers) (y : ReceiverSide) (e : InAssociation.Event) : ReceiverSide :=
  let r := y.assoc.step timers.flowStallTimeout e
  { assoc := r.1
    pushed := y.pushed ++ r.2
    acks := match e with
      | .flushAck now room => y.acks ++ (y.assoc.takeAckEntry now room).2.toList
      | _ => y.acks }

end ReceiverSide

/-! ## The two sides and the network -/

structure Link where
  sender : SenderSide
  receiver : ReceiverSide

inductive LinkEvent where
  /-- The network delivers the data packet it recorded at `index`. -/
  | deliver (index : ℕ) (env : DeliveryEnv) (flowId assocEpoch incoming : ℕ)
  /-- The network delivers the report it recorded at `index`. -/
  | report (index : ℕ) (rtt : RttEstimate) (now : ℕ)
  | atSender (e : SenderEvent)
  | reclaim (now : ℕ)
  | flushAck (now room : ℕ)

namespace Link

def step (timers : FlowTimers) (l : Link) : LinkEvent → Link
  | .deliver index env flowId assocEpoch incoming =>
    match l.sender.data[index]? with
    | none => l
    | some body =>
      { l with receiver := l.receiver.step timers (.deliver env flowId assocEpoch body.seq incoming) }
  | .report index rtt now =>
    match l.receiver.acks[index]? with
    | none => l
    | some ack => { l with sender := l.sender.acknowledge timers ack rtt now }
  | .atSender e => { l with sender := l.sender.step timers e }
  | .reclaim now => { l with receiver := l.receiver.step timers (.reclaim now) }
  | .flushAck now room => { l with receiver := l.receiver.step timers (.flushAck now room) }

/-- A fresh generation: both associations just reset for the same flow, mode and epoch, the
staging pool holding nothing of this association. -/
def fresh (p : OutAssocParams) (oldEpoch : ℕ) (old : InAssociation) (receiverSlot : ℕ)
    (senderAddr : Address) (senderId : BcpId) (now now' : ℕ) : Link where
  sender := ⟨resetOutAssoc oldEpoch p now, fun _ => .free, [], []⟩
  receiver := ⟨resetInAssoc old ⟨receiverSlot, senderAddr, senderId, p.flowId, p.mode, p.flowEpoch⟩
    now', [], []⟩

end Link

end BcpFlux.Flow
