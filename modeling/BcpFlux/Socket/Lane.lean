import BcpFlux.Flow.BodySlots
import BcpFlux.Socket.Outgoing

/-! # One flow towards one peer

The send path of `Outgoing` narrowed to the messages of one flow: every call of `Send` is
numbered, and the number goes with the message through the open batch, the waiting queue
and the stamp.  A `Flush` of the application runs in the three pieces its locks cut it
into, the copy of the batch, its admission and the settling.
-/

namespace BcpFlux.Socket
open Library Wire BcpFlux.Flow Peer

/-- How far a flush has come with the copy it took. -/
inductive FlushPhase where
  | taken
  /-- Not admitted: the batch stays. -/
  | refused
  /-- Queued, dropped or kept for the session: the batch is spent. -/
  | placed
  /-- Stamped and sealed: the kernel is asked next. -/
  | sealed
deriving DecidableEq, Repr

/-- The copy of the open batch a flush carries. -/
structure FlushCopy where
  bytes : Datagram
  ids : List ℕ
  phase : FlushPhase
deriving DecidableEq, Repr

/-- What pools, clock and peer answer during one pass through `PreProcessOut`. -/
structure LaneChoices where
  slot : ℕ
  /-- A slot for the copy of the batch. -/
  bodySlot : Bool
  wireSlot : Bool
  pendingSlot : Bool
  /-- Room for a new association. -/
  room : Bool
  params : OutAssocParams
  oldEpoch : ℕ
  budget : PeerBudget
  now : ℕ

structure Lane where
  mode : FlowMode
  /-- `IsValid` of the peer. -/
  established : Bool
  /-- Made by the first send. -/
  assoc : Option OutAssociation
  batch : OpenBatch
  /-- The messages in the open batch, in order. -/
  batched : List ℕ
  flush : Option FlushCopy
  /-- The messages of the packets in the waiting queue, oldest packet first. -/
  waitingIds : List (List ℕ)
  /-- Packets parked behind the handshake. -/
  parked : List (List ℕ × Datagram)
  /-- Calls of `Send` so far; the next message gets this number. -/
  calls : ℕ
  /-- Calls that returned `Ok`, in order. -/
  accepted : List ℕ
  /-- Calls that returned an error. -/
  refused : List ℕ
  /-- Every sequence handed out, with the messages of its packet. -/
  stamps : List (ℕ × List ℕ)

namespace Lane

/-- The bodies of the flow are their own retransmit source. -/
def retains (l : Lane) : Bool := decide (l.mode ≠ .unreliable)

/-! ## Admission -/

def findOrCreate (l : Lane) (c : LaneChoices) : Option OutAssociation :=
  match l.assoc with
  | some flow => some flow
  | none =>
    if c.room then some (resetOutAssoc c.oldEpoch { c.params with mode := l.mode } c.now) else none

/-- What the verdict makes of the messages of a packet. -/
def place (l : Lane) (seq : ℕ) (verdict : SendAdmission) (evicted : List ℕ) (ids : List ℕ) :
    Lane :=
  match verdict with
  | .sent => { l with stamps := l.stamps ++ [(seq, ids)] }
  | .queued => { l with waitingIds := l.waitingIds.drop evicted.length ++ [ids] }
  | .dropped | .rejected | .dead => l

/-- `AdmitOut`. -/
def admitOut (l : Lane) (ids : List ℕ) (packet : Datagram) (c : LaneChoices) :
    SendAdmission × Lane :=
  match l.findOrCreate c with
  | none => (.dead, l)
  | some flow =>
    let r := flow.admitOut c.budget c.slot packet.length l.established c.now
    (r.1, { l with assoc := some r.2.1 }.place flow.nextSeq r.1 r.2.2.2 ids)

def park (l : Lane) (ids : List ℕ) (packet : Datagram) (c : LaneChoices) : Lane × SendStatus :=
  if maxWirePacketSize < packet.length then (l, .tooLarge)
  else if !c.pendingSlot then (l, .poolExhausted)
  else ({ l with parked := l.parked ++ [(ids, packet)] }, .ok)

/-- What follows an admission: whether a sealed packet goes to the kernel, and the status. -/
def afterAdmit (l : Lane) (verdict : SendAdmission) (ids : List ℕ) (packet : Datagram)
    (c : LaneChoices) : Lane × Bool × SendStatus :=
  match verdict with
  | .sent =>
    if l.established then (l, true, .ok)
    else if l.retains then (l, false, .ok)
    else
      let r := l.park ids packet c
      (r.1, false, r.2)
  | .queued | .dropped => (l, false, .ok)
  | .rejected => (l, false, .tooManyPending)
  | .dead => (l, false, .invalidState)

/-- `PreProcessOut` on a packet of the flow; `authFails`: an identity is required that the
peer has not proved. -/
def preProcessOut (l : Lane) (ids : List ℕ) (packet : Datagram) (authFails : Bool)
    (c : LaneChoices) : Lane × Bool × SendStatus :=
  if l.established && authFails then (l, false, .notAuthenticated)
  else if packet.length < packet.headSize then (l, false, .malformed)
  else if l.retains && l.established && !c.wireSlot then (l, false, .poolExhausted)
  else
    let r := l.admitOut ids packet c
    r.2.afterAdmit r.1 ids packet c

/-! ## The flush of the open batch -/

/-- `SealOneBatch` up to `TakeBatch`. -/
def takeBatch (l : Lane) (bodySlot : Bool) : Option Lane × SendStatus :=
  if !l.batch.peekBatch then (none, .ok)
  else if !bodySlot then (none, .poolExhausted)
  else match l.batch.takeBatch maxWirePacketSize with
    | (none, _) => (none, .ok)
    | (some bytes, batch) =>
      (some { l with batch := batch, flush := some ⟨bytes, l.batched, .taken⟩ }, .ok)

/-- The rest of `SealOneBatch` up to its `FinishBatch`. -/
def admitBatch (l : Lane) (c : LaneChoices) : Lane × SendStatus :=
  match l.flush with
  | some ⟨bytes, ids, .taken⟩ =>
    let r := l.preProcessOut ids bytes false c
    let phase := if r.2.1 then .sealed else if r.2.2 = .ok then .placed else .refused
    ({ r.1 with flush := some ⟨bytes, ids, phase⟩ }, r.2.2)
  | _ => (l, .ok)

def finishBatch (l : Lane) (size : ℕ) (sent : Bool) : Lane :=
  let batch := l.batch.finishBatch size sent
  { l with batch := batch, batched := if batch.buffer = [] then [] else l.batched, flush := none }

/-- The `FinishBatch` a flush ends with; `left` is the kernel's answer. -/
def settle (l : Lane) (left : Bool) : Lane :=
  match l.flush with
  | some ⟨bytes, _, .refused⟩ => l.finishBatch bytes.length false
  | some ⟨bytes, _, .placed⟩ => l.finishBatch bytes.length true
  | some ⟨bytes, _, .sealed⟩ => l.finishBatch bytes.length left
  | _ => l

/-- The status of a flush that was admitted with `status`. -/
def flushStatus (l : Lane) (status : SendStatus) (left : Bool) : SendStatus :=
  match l.flush with
  | some ⟨_, _, .sealed⟩ => if left then .ok else .ioFailed
  | _ => status

/-- `FlushOneBatch`. -/
def flushOneBatch (l : Lane) (c : LaneChoices) (left : Bool) : Lane × SendStatus :=
  match l.takeBatch c.bodySlot with
  | (none, status) => (l, status)
  | (some taken, _) =>
    let r := taken.admitBatch c
    (r.1.settle left, r.1.flushStatus r.2 left)

/-- `FlushFlowOf`, and the refusal of a packet that would have to go around the batch. -/
def goAround (l : Lane) (c : LaneChoices) (left : Bool) : Lane × Option SendStatus :=
  match l.assoc with
  | none => (l, none)
  | some _ =>
    let r := l.flushOneBatch c left
    (r.1, if r.1.batch.peekBatch then some .tooManyPending else none)

/-! ## Sends -/

/-- `AppendToBatch`. -/
def append (l : Lane) (ids : List ℕ) (packet : Datagram) : Lane × BatchAdmit :=
  let r := l.batch.appendToBatch packet maxWirePacketSize
  (if r.1 = .appended then { l with batch := r.2, batched := l.batched ++ ids } else l, r.1)

/-- The append of `OfferToBatch`, with a flush in between when the batch is full. -/
def joinBatch (l : Lane) (ids : List ℕ) (packet : Datagram) (c : LaneChoices) (left : Bool) :
    Lane × SendStatus :=
  let r := l.append ids packet
  if r.2 = .sealed then
    let flushed := l.flushOneBatch c left
    if flushed.2 ≠ .ok then flushed
    else
      let r := flushed.1.append ids packet
      (r.1, SendPath.admitStatus r.2)
  else (r.1, SendPath.admitStatus r.2)

/-- `OfferToBatch`: `none` sends the packet the ordinary way. -/
def offerToBatch (l : Lane) (ids : List ℕ) (packet : Datagram) (authFails : Bool)
    (c : LaneChoices) (left : Bool) : Lane × Option SendStatus :=
  if isHandFramed packet then l.goAround c left
  else if !l.established || authFails then (l, none)
  else match l.assoc with
    | none => (l, none)
    | some flow =>
      if !SendPath.wouldAdmit flow c.budget packet.length then l.goAround c left
      else
        let r := l.joinBatch ids packet c left
        (r.1, some r.2)

/-- `SendNow`; `sentTo` is the kernel's answer to the one datagram. -/
def sendNow (l : Lane) (ids : List ℕ) (packet : Datagram) (authFails : Bool) (c : LaneChoices)
    (sentTo : Bool) : Lane × SendStatus :=
  let r := l.preProcessOut ids packet authFails c
  (r.1, if r.2.1 then (if sentTo then .ok else .sendFailed) else r.2.2)

/-- What the environment answers to one `Send`. -/
structure Answers where
  authFails : Bool
  flush : LaneChoices
  own : LaneChoices
  /-- The kernel takes the batch a flush inside the send offers it. -/
  left : Bool
  /-- The kernel takes the packet itself. -/
  sentTo : Bool

/-- `SocketSender::Send`. -/
def sendPacket (l : Lane) (ids : List ℕ) (packet : Datagram) (a : Answers) : Lane × SendStatus :=
  let offered := l.offerToBatch ids packet a.authFails a.flush a.left
  match offered.2 with
  | some status => (offered.1, status)
  | none => offered.1.sendNow ids packet a.authFails a.own a.sentTo

/-- A call of `Send`, entered under what it returned. -/
def send (l : Lane) (packet : Datagram) (a : Answers) : Lane :=
  let r := l.sendPacket [l.calls] packet a
  if r.2 = .ok then
    { r.1 with calls := l.calls + 1, accepted := l.accepted ++ [l.calls], refused := l.refused }
  else
    { r.1 with calls := l.calls + 1, accepted := l.accepted, refused := l.refused ++ [l.calls] }

/-- `FlushPending` sends the oldest parked packet; nobody sees its status. -/
def unpark (l : Lane) (a : Answers) : Lane :=
  match l.parked with
  | [] => l
  | (ids, packet) :: rest =>
    if l.established then ({ l with parked := rest }.sendPacket ids packet a).1 else l

/-! ## Steps -/

inductive Event where
  | send (packet : Datagram) (a : Answers)
  | unpark (a : Answers)
  | establish
  | takeBatch (bodySlot : Bool)
  | admitBatch (c : LaneChoices)
  | settle (left : Bool)
  | ack (rtt : RttEstimate) (ack : AckEntry) (now : ℕ)
  | tick (budget : PeerBudget) (now : ℕ)
  /-- Resends of the tick that never left. -/
  | refund (seqs : List ℕ)
  /-- One turn of `DrainWaitingSends` on the candidate it peeked. -/
  | drain (budget : PeerBudget) (candidateEpoch candidateSlot now : ℕ)
  /-- A refusal of the remote fails the association. -/
  | fail

def fail (l : Lane) (flow : OutAssociation) : Lane :=
  { l with assoc := some (flow.tearDown .failed), waitingIds := [] }

def tick (l : Lane) (timers : FlowTimers) (budget : PeerBudget) (now : ℕ) (flow : OutAssociation) :
    Lane :=
  if flow.life = .opened then
    let r := flow.retransmitInflight timers budget now .zero
    if r.assocDead then l.fail flow else { l with assoc := some r.flow }
  else l

def drain (l : Lane) (budget : PeerBudget) (candidateEpoch candidateSlot now : ℕ)
    (flow : OutAssociation) : Lane :=
  let r := flow.claimWaiting budget candidateEpoch candidateSlot now
  if r.1 then
    { l with
      assoc := some r.2.1
      stamps := l.stamps ++ [(flow.nextSeq, l.waitingIds.headD [])]
      waitingIds := l.waitingIds.tail }
  else { l with assoc := some r.2.1 }

def onAssoc (l : Lane) (f : OutAssociation → Lane) : Lane :=
  match l.assoc with
  | none => l
  | some flow => f flow

def step (timers : FlowTimers) (l : Lane) : Event → Lane
  | .send packet a => l.send packet a
  | .unpark a => l.unpark a
  | .establish => { l with established := true }
  | .takeBatch bodySlot => (l.takeBatch bodySlot).1.getD l
  | .admitBatch c => (l.admitBatch c).1
  | .settle left => l.settle left
  | .ack rtt ack now =>
    l.onAssoc fun flow => { l with assoc := some (flow.applyAck timers rtt ack now .zero).1 }
  | .tick budget now => l.onAssoc (l.tick timers budget now)
  | .refund seqs => l.onAssoc fun flow => { l with assoc := some (flow.refundResendAttempts seqs) }
  | .drain budget candidateEpoch candidateSlot now =>
    if l.established then l.onAssoc (l.drain budget candidateEpoch candidateSlot now) else l
  | .fail =>
    l.onAssoc fun flow => if flow.life = .closed ∨ flow.life = .failed then l else l.fail flow

def init (mode : FlowMode) (established : Bool) : Lane where
  mode := mode
  established := established
  assoc := none
  batch := .empty
  batched := []
  flush := none
  waitingIds := []
  parked := []
  calls := 0
  accepted := []
  refused := []
  stamps := []

end Lane

end BcpFlux.Socket
