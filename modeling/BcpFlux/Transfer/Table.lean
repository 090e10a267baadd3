import BcpFlux.Transfer.Link
import BcpFlux.Transfer.Side

/-! # The transfer table

`TransferTable` with both directions and the queue of finished entries.  An entry of the
queue is a bare slot index; `owner` notes beside it, for the statements only, the lease
under which the slot was when the entry was queued.  `pushes` and `reads` keep what has
ever been queued and read.
-/

namespace BcpFlux.Transfer
open Library Peer

def transferMaxBytesDefault : ℕ := 2 ^ 30
def invalidId : ℕ := 0xFFFF

/-- The value-initialised record a released slot is left with.  `BeginSend` clears the
rings before they are read again. -/
def OutTransfer.blank : OutTransfer := .start 0 ⟨[], 0, 0⟩ 0 (fun _ => 0) 0

def InTransfer.blank : InTransfer :=
  { InTransfer.announce 0 ⟨[], 0, 0⟩ 0 0 with announced := false, ackOwed := false }

def OutTransfer.over (out : OutTransfer) : Bool :=
  out.refused || decide (out.packetCount ≤ out.contiguousAcked)

structure Finished where
  slot : ℕ
  incoming : Bool
  outcome : Error
  owner : ℕ
deriving DecidableEq, Repr

/-- What the application is shown of a finished transfer. -/
structure View where
  buffer : Option Buffer
  length : ℕ
  peer : Address
  transferId : ℕ
  outcome : Error

structure Table where
  maxTransferBytes : ℕ
  outbound : Side OutTransfer
  inbound : Side InTransfer
  finished : List Finished
  pushes : List (Bool × ℕ)
  reads : List (Finished × Bool)

namespace Table

def init (outCount inCount maxPeers maxTransferBytes : ℕ) : Option Table :=
  if maxPeers = 0 then none
  else do
    let outbound ← Side.init outCount maxPeers OutTransfer.blank
    let inbound ← Side.init inCount maxPeers InTransfer.blank
    return ⟨if maxTransferBytes ≠ 0 then maxTransferBytes else transferMaxBytesDefault,
      outbound, inbound, [], [], []⟩

/-- The size of the finished ring, a sum of two 32-bit counts. -/
def ring (t : Table) : ℕ := u32 (t.outbound.count + t.inbound.count)

def serial (t : Table) (incoming : Bool) (slot : ℕ) : ℕ :=
  if incoming then t.inbound.serial slot else t.outbound.serial slot

/-- An entry is queued while the ring has room, and dropped otherwise. -/
def push (t : Table) (slot : ℕ) (incoming : Bool) (outcome : Error) : Table :=
  if t.finished.length < t.ring then
    { t with
      finished := t.finished ++ [⟨slot, incoming, outcome, t.serial incoming slot⟩]
      pushes := t.pushes ++ [(incoming, t.serial incoming slot)] }
  else t

def beginSend (t : Table) (peerSlot : ℕ) (peer : Address) (transferId : ℕ)
    (buffer : Option (ℕ → UInt8)) (length hint : ℕ) : Error × Table :=
  if t.outbound.count = 0 then (.invalidState, t)
  else
    match buffer with
    | none => (.invalidParam, t)
    | some source =>
      if length = 0 then (.invalidParam, t)
      else if t.maxTransferBytes < length then (.tooLarge, t)
      else if t.outbound.maxPeers ≤ peerSlot then (.invalidParam, t)
      else if transferId = invalidId then (.invalidParam, t)
      else if (t.outbound.find peerSlot transferId).isSome then (.alreadyPending, t)
      else if packetsFor length = 0 then (.invalidParam, t)
      else
        let r := t.outbound.claim peerSlot transferId
          (.start peerSlot peer transferId source length) hint
        (r.1, { t with outbound := r.2 })

/-- The flag is `outIsNew`. -/
def onAnnounce (t : Table) (peerSlot : ℕ) (peer : Address) (transferId length stride hint : ℕ) :
    Error × Bool × Table :=
  if t.inbound.count = 0 then (.invalidState, false, t)
  else if t.inbound.maxPeers ≤ peerSlot then (.invalidParam, false, t)
  else if stride ≠ transferStride then (.malformed, false, t)
  else if length = 0 then (.malformed, false, t)
  else if t.maxTransferBytes < length then (.tooLarge, false, t)
  else if (t.inbound.find peerSlot transferId).isSome then (.ok, false, t)
  else
    let r := t.inbound.claim peerSlot transferId (.announce peerSlot peer transferId length) hint
    (r.1, decide (r.1 = .ok), { t with inbound := r.2 })

/-- What `OnData` leaves behind: the record, and the entry of a transfer it completed. -/
def settleData (t : Table) (slot : ℕ) (r : InTransfer × Bool) : Table :=
  let stored := { t with inbound := t.inbound.store slot r.1 }
  if r.2 then stored.push slot true .ok else stored

def onData (t : Table) (peerSlot transferId seq : ℕ) (payload : List UInt8) : Error × Table :=
  match t.inbound.find peerSlot transferId with
  | none => (.notFound, t)
  | some slot =>
    let r := (t.inbound.records slot).onData seq payload
    (r.1, t.settleData slot r.2)

/-- `buffer` is false for a null pointer. -/
def allow (t : Table) (peerSlot transferId : ℕ) (buffer : Bool) : Error × Table :=
  if buffer = false then (.invalidParam, t)
  else
    match t.inbound.find peerSlot transferId with
    | none => (.notFound, t)
    | some slot =>
      let r := (t.inbound.records slot).allow
      (r.1, { t with inbound := t.inbound.store slot r.2 })

def reject (t : Table) (peerSlot transferId : ℕ) : Error × Table :=
  match t.inbound.find peerSlot transferId with
  | none => (.notFound, t)
  | some slot => (.ok, { t with inbound := t.inbound.close peerSlot slot .blank })

def complete (t : Table) (peerSlot transferId : ℕ) : Error × Table :=
  match t.inbound.find peerSlot transferId with
  | none => (.notFound, t)
  | some slot =>
    if (t.inbound.records slot).complete then
      (.ok, { t with inbound := t.inbound.close peerSlot slot .blank })
    else (.notFound, t)

/-- `TakeAckDebt`, and `ReceiveState` when an answer is owed. -/
def answer (t : Table) (peerSlot transferId : ℕ) : List Packet × Table :=
  match t.inbound.find peerSlot transferId with
  | none => ([], t)
  | some slot =>
    let r := (t.inbound.records slot).answerDebt
    (r.2, { t with inbound := t.inbound.store slot r.1 })

/-- What `OnAck` and `OnRefused` leave behind. -/
def settleSend (t : Table) (slot : ℕ) (out : OutTransfer) (ends : Bool) (outcome : Error) : Table :=
  let stored := { t with outbound := t.outbound.store slot out }
  if ends then stored.push slot false outcome else stored

def onAck (t : Table) (peerSlot transferId recvNext : ℕ) (bitmap : List Bool) (now : ℕ) :
    AckReport × Table :=
  match t.outbound.find peerSlot transferId with
  | none => (.none, t)
  | some slot =>
    let r := (t.outbound.records slot).onAck recvNext bitmap now
    (r.2.1, t.settleSend slot r.1 r.2.2 .ok)

/-- The sequences are those whose bytes go back to the peer. -/
def onRefused (t : Table) (peerSlot transferId : ℕ) : List ℕ × Table :=
  match t.outbound.find peerSlot transferId with
  | none => ([], t)
  | some slot =>
    let r := (t.outbound.records slot).onRefused
    (r.2.1, t.settleSend slot r.1 r.2.2 .refused)

/-- One transfer's turn in the send pass. -/
def pass (t : Table) (peerSlot transferId : ℕ) (peer : PeerBudget) (queued : ℕ) (times : Intervals)
    (now : ℕ) : List Packet × Table :=
  match t.outbound.find peerSlot transferId with
  | none => ([], t)
  | some slot =>
    let turn := (Turn.fresh peer (t.outbound.records slot) queued).run times now
    (turn.packets, { t with outbound := t.outbound.store slot turn.out })

def sweepPeer (t : Table) (peerSlot : ℕ) : Table :=
  { t with
    outbound := t.outbound.sweep peerSlot .blank
    inbound := t.inbound.sweep peerSlot .blank }

def holds (t : Table) (e : Finished) : Bool :=
  if e.incoming then
    decide (t.inbound.acquired e.slot = t.inbound.released e.slot + 1 ∧
      t.inbound.serial e.slot = e.owner)
  else
    decide (t.outbound.acquired e.slot = t.outbound.released e.slot + 1 ∧
      t.outbound.serial e.slot = e.owner)

/-- One entry is taken off the ring and shown.  The slot of a finished send goes back here. -/
def readEntry (t : Table) (e : Finished) (rest : List Finished) : View × Table :=
  let taken := { t with finished := rest, reads := t.reads ++ [(e, t.holds e)] }
  if e.incoming then
    let r := t.inbound.records e.slot
    (⟨r.destination, r.length, r.peerAddr, r.transferId, e.outcome⟩, taken)
  else
    let r := t.outbound.records e.slot
    (⟨none, r.length, r.peerAddr, r.transferId, e.outcome⟩,
      { taken with outbound := t.outbound.close r.peerSlot e.slot .blank })

/-- `DrainFinished` with room for `max` views. -/
def drainFinished : ℕ → Table → List View × Table
  | 0, t => ([], t)
  | max + 1, t =>
    match t.finished with
    | [] => ([], t)
    | e :: rest =>
      let r := t.readEntry e rest
      let more := drainFinished max r.2
      (r.1 :: more.1, more.2)

inductive Call where
  | beginSend (peerSlot : ℕ) (peer : Address) (transferId : ℕ) (buffer : Option (ℕ → UInt8))
      (length hint : ℕ)
  | onAnnounce (peerSlot : ℕ) (peer : Address) (transferId length stride hint : ℕ)
  | onData (peerSlot transferId seq : ℕ) (payload : List UInt8)
  | allow (peerSlot transferId : ℕ) (buffer : Bool)
  | reject (peerSlot transferId : ℕ)
  | complete (peerSlot transferId : ℕ)
  | answer (peerSlot transferId : ℕ)
  | onAck (peerSlot transferId recvNext : ℕ) (bitmap : List Bool) (now : ℕ)
  | onRefused (peerSlot transferId : ℕ)
  | pass (peerSlot transferId : ℕ) (peer : PeerBudget) (queued : ℕ) (times : Intervals) (now : ℕ)
  | sweepPeer (peerSlot : ℕ)
  | drainFinished (max : ℕ)

def call (t : Table) : Call → Table
  | .beginSend peerSlot peer transferId buffer length hint =>
    (t.beginSend peerSlot peer transferId buffer length hint).2
  | .onAnnounce peerSlot peer transferId length stride hint =>
    (t.onAnnounce peerSlot peer transferId length stride hint).2.2
  | .onData peerSlot transferId seq payload => (t.onData peerSlot transferId seq payload).2
  | .allow peerSlot transferId buffer => (t.allow peerSlot transferId buffer).2
  | .reject peerSlot transferId => (t.reject peerSlot transferId).2
  | .complete peerSlot transferId => (t.complete peerSlot transferId).2
  | .answer peerSlot transferId => (t.answer peerSlot transferId).2
  | .onAck peerSlot transferId recvNext bitmap now =>
    (t.onAck peerSlot transferId recvNext bitmap now).2
  | .onRefused peerSlot transferId => (t.onRefused peerSlot transferId).2
  | .pass peerSlot transferId peer queued times now =>
    (t.pass peerSlot transferId peer queued times now).2
  | .sweepPeer peerSlot => t.sweepPeer peerSlot
  | .drainFinished max => (drainFinished max t).2

/-! ## What the two opening calls can do -/

section Opening
variable (t : Table) (peerSlot : ℕ) (peer : Address) (transferId : ℕ)

theorem beginSend_cases (buffer : Option (ℕ → UInt8)) (length hint : ℕ) :
    ((t.beginSend peerSlot peer transferId buffer length hint).2 = t ∧
        (t.beginSend peerSlot peer transferId buffer length hint).1 ≠ .ok) ∨
      ∃ source, buffer = some source ∧ t.outbound.count ≠ 0 ∧ length ≠ 0 ∧
        length ≤ t.maxTransferBytes ∧ peerSlot < t.outbound.maxPeers ∧
        t.outbound.find peerSlot transferId = none ∧ packetsFor length ≠ 0 ∧
        t.beginSend peerSlot peer transferId buffer length hint =
          ((t.outbound.claim peerSlot transferId
              (.start peerSlot peer transferId source length) hint).1,
            { t with outbound := (t.outbound.claim peerSlot transferId
                (.start peerSlot peer transferId source length) hint).2 }) := by
  unfold beginSend
  split
  · exact .inl ⟨rfl, Error.noConfusion⟩
  next hcount =>
  cases buffer with
  | none => exact .inl ⟨rfl, Error.noConfusion⟩
  | some source =>
    dsimp only
    split
    · exact .inl ⟨rfl, Error.noConfusion⟩
    next hzero =>
    split
    · exact .inl ⟨rfl, Error.noConfusion⟩
    next hlong =>
    split
    · exact .inl ⟨rfl, Error.noConfusion⟩
    next hpeer =>
    split
    · exact .inl ⟨rfl, Error.noConfusion⟩
    split
    · exact .inl ⟨rfl, Error.noConfusion⟩
    next hfind =>
    split
    · exact .inl ⟨rfl, Error.noConfusion⟩
    next hpackets =>
    exact .inr ⟨source, rfl, hcount, hzero, Nat.le_of_not_lt hlong, Nat.lt_of_not_le hpeer,
      by simpa using hfind, hpackets, rfl⟩

theorem onAnnounce_cases (length stride hint : ℕ) :
    ((t.onAnnounce peerSlot peer transferId length stride hint).2 = (false, t)) ∨
      (t.inbound.count ≠ 0 ∧ peerSlot < t.inbound.maxPeers ∧ stride = transferStride ∧
        length ≠ 0 ∧ length ≤ t.maxTransferBytes ∧ t.inbound.find peerSlot transferId = none ∧
        (t.onAnnounce peerSlot peer transferId length stride hint).2.2 =
          { t with inbound := (t.inbound.claim peerSlot transferId
              (.announce peerSlot peer transferId length) hint).2 }) := by
  unfold onAnnounce
  split
  · exact .inl rfl
  next hcount =>
  split
  · exact .inl rfl
  next hpeer =>
  split
  · exact .inl rfl
  next hstride =>
  split
  · exact .inl rfl
  next hzero =>
  split
  · exact .inl rfl
  next hlong =>
  split
  · exact .inl rfl
  next hfind =>
  exact .inr ⟨hcount, Nat.lt_of_not_le hpeer, Decidable.of_not_not hstride, hzero,
    Nat.le_of_not_lt hlong, by simpa using hfind, rfl⟩

end Opening

end Table

end BcpFlux.Transfer
