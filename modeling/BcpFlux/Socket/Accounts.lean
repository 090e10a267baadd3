import BcpFlux.Flow.Associations
import BcpFlux.Transfer.Charges

/-! # What a socket charges its peers

Every peer carries two counters: the bytes in flight to it and the packets outstanding.
Associations, batches, the waiting queue and transfers spend from them, and
acknowledgements, losses, refusals and teardowns give back.  What the congestion
controller makes of the other fields of a budget is part of the event.
-/

namespace BcpFlux.Socket
open Library Wire BcpFlux.Flow Peer BcpFlux.Transfer Function

def ccInitialWindowBytes : ℕ := 10 * maxWirePacketSize

def freshBudget : PeerBudget := ⟨⟨0, 0, 0, 0, 0⟩, ccInitialWindowBytes, 0, 0, 0, 0, 0, 0⟩

def refund (peer : PeerBudget) (amount : ℕ × ℕ) : PeerBudget :=
  transferResolve peer amount.1 amount.2

/-- The fields of `next` in place of those of `peer`, the counters apart. -/
def retune (peer next : PeerBudget) : PeerBudget :=
  { next with
    congestionBudget := u32 next.congestionBudget
    bytesInFlight := peer.bytesInFlight
    outstandingToPeer := peer.outstandingToPeer }

/-- `ApplyCongestion`: the refund, and whatever the controller decides. -/
def applyCongestion (peer next : PeerBudget) (resolved : ℕ × ℕ) : PeerBudget :=
  retune (refund peer resolved) next

/-- A packet on its way into an association, with the terms a new one is made on. -/
structure Posting where
  packet : Datagram
  packetSlot : ℕ
  mode : FlowMode
  flowEpoch : UInt8
  waitingCap : ℕ
  /-- The session is up. -/
  flying : Bool
  now : ℕ

structure Accounts where
  table : AssocTable
  /-- The ring and the queue of each association slot. -/
  rings : ℕ → OutAssociation
  budgets : ℕ → PeerBudget
  transfers : Table
  /-- Announcements sent to the peer since it was registered. -/
  announced : ℕ → ℕ

namespace Accounts

def setRing (s : Accounts) (a : ℕ) (flow : OutAssociation) : Accounts :=
  { s with rings := update s.rings a flow }

def setBudget (s : Accounts) (p : ℕ) (budget : PeerBudget) : Accounts :=
  { s with budgets := update s.budgets p budget }

/-! ## Peers -/

/-- `RegisterPeer` writes every field of the slot it took. -/
def registerPeer (s : Accounts) (slot : ℕ) (addr : Address) (id : Option BcpId) : Accounts :=
  let table := s.table.registerPeer slot addr id
  if s.table.peers slot = none ∧ (table.peers slot).isSome then
    { s with
      table := table
      budgets := update s.budgets slot freshBudget
      announced := update s.announced slot 0 }
  else { s with table := table }

/-- `RemovePeer` sweeps both tables; the budget dies with the peer. -/
def removePeer (s : Accounts) (addr : Address) : Accounts :=
  match s.table.peerAt addr with
  | none => s
  | some p =>
    { s with
      table := s.table.removePeer addr
      rings := fun a => if a ∈ (s.table.dirs p).map FlowDirEntry.assocSlot
        then (s.rings a).tearDown .closed else s.rings a
      transfers := s.transfers.sweepPeer p }

/-! ## Sends on flows -/

/-- The ring `AdmitOut` works on: of the association it found, or as `ResetOutAssoc` writes it. -/
def ringFor (s : Accounts) (p flowId a : ℕ) (post : Posting) : OutAssociation :=
  match s.table.findOutAssoc p flowId with
  | some _ => s.rings a
  | none =>
    resetOutAssoc (s.rings a).epoch
      ⟨p, ⟨[], 0, 0⟩, ⟨[]⟩, flowId, post.mode, post.flowEpoch, post.waitingCap⟩ post.now

/-- `PreProcessOut` down to `AdmitOut`, for a registered peer. -/
def send (s : Accounts) (p flowId : ℕ) (acquired : Option ℕ) (post : Posting) : Accounts :=
  if s.table.peers p = none ∨ post.packet.length < post.packet.headSize then s
  else
    let table := s.table.admitOut p flowId acquired
    match table.findOutAssoc p flowId with
    | none => { s with table := table }
    | some a =>
      let r := (s.ringFor p flowId a post).admitOut (s.budgets p) post.packetSlot
        post.packet.length post.flying post.now
      ({ s with table := table }.setRing a r.2.1).setBudget p r.2.2.1

/-- `ClaimWaiting` on the association at `index` of the peer's directory. -/
def drainWaiting (s : Accounts) (p index candidateEpoch candidateSlot now : ℕ) : Accounts :=
  match s.table.peers p, (s.table.dirs p)[index]? with
  | some _, some e =>
    let r := (s.rings e.assocSlot).claimWaiting (s.budgets p) candidateEpoch candidateSlot now
    (s.setRing e.assocSlot r.2.1).setBudget p r.2.2
  | _, _ => s

/-! ## Acknowledgements and ticks -/

/-- One entry of `Flow_Ack`, resolved into the feedback of the whole reply. -/
def ackEntry (timers : FlowTimers) (p now : ℕ) (acc : Accounts × CongestionDelta) (ack : AckEntry) :
    Accounts × CongestionDelta :=
  match acc.1.table.findOutAssoc p ack.flowId with
  | none => acc
  | some a =>
    let r := (acc.1.rings a).applyAck timers (acc.1.budgets p).rtt ack now acc.2
    (acc.1.setRing a r.1, r.2.1)

def flowAck (s : Accounts) (timers : FlowTimers) (p : ℕ) (acks : List AckEntry) (now : ℕ)
    (next : PeerBudget) : Accounts :=
  if s.table.peers p = none then s
  else
    let r := acks.foldl (ackEntry timers p now) (s, .zero)
    r.1.setBudget p (applyCongestion (r.1.budgets p) next r.2.resolved)

/-- `FailAssoc`; the refund is skipped when no bytes were drained. -/
def failAssoc (s : Accounts) (p a : ℕ) (recorded : Bool) : Accounts :=
  if (s.table.assocs a).life = .opened then
    let drained := (s.rings a).owes
    let failed := { s with table := s.table.failAssoc a recorded }.setRing a
      ((s.rings a).tearDown .failed)
    if drained.1 = 0 then failed else failed.setBudget p (refund (s.budgets p) drained)
  else s

/-- `UpdateOutFlow` for the association at `index` of the peer's directory. -/
def updateOutFlow (s : Accounts) (timers : FlowTimers) (p index now : ℕ) (recorded : Bool)
    (next : PeerBudget) : Accounts :=
  match s.table.peers p, (s.table.dirs p)[index]? with
  | some _, some e =>
    let a := e.assocSlot
    if (s.table.assocs a).life = .opened then
      let r := (s.rings a).retransmitInflight timers (s.budgets p) now .zero
      if r.assocDead then s.failAssoc p a recorded
      else
        let hasDelta := decide (r.delta.resolvedBytes ≠ 0) || r.delta.sawLoss
        (s.setRing a r.flow).setBudget p
          (if hasDelta || !r.resends.isEmpty then applyCongestion r.peer next r.delta.resolved
            else r.peer)
    else s
  | _, _ => s

/-- `Flow_Reject`. -/
def flowReject (s : Accounts) (p flowId : ℕ) (flowEpoch : UInt8) (recorded : Bool) : Accounts :=
  match s.table.peers p, s.table.findOutAssoc p flowId with
  | some _, some a =>
    if (s.rings a).flowEpoch = flowEpoch then s.failAssoc p a recorded else s
  | _, _ => s

/-! ## Closing a flow -/

/-- One turn of the loop of `CloseFlow`: `FreeAssoc` refunds the owner it was given. -/
def closeAssoc (s : Accounts) (a : ℕ) : Accounts :=
  let freed := { s with table := s.table.closeAssoc a }.setRing a ((s.rings a).tearDown .closed)
  match s.table.ownerOf a with
  | some p => freed.setBudget p (refund (s.budgets p) (s.rings a).owes)
  | none => freed

def closeAssocs (f : ℕ) : ℕ → Accounts → Accounts
  | 0, s => s
  | turns + 1, s =>
    match (s.table.flows f).assocs with
    | [] => s
    | a :: _ => closeAssocs f turns (s.closeAssoc a)

def closeFlow (s : Accounts) (f : ℕ) : Accounts :=
  if (s.table.flows f).life = .opened then
    let s := { s with table := s.table.setFlow f { s.table.flows f with life := .closing } }
    let s := closeAssocs f (s.table.flows f).assocs.length s
    { s with table := s.table.setFlow f { s.table.flows f with flowId := none, life := .closed } }
  else s

/-! ## Transfers -/

def sendTransfer (s : Accounts) (addr : Address) (transferId : ℕ) (buffer : Option (ℕ → UInt8))
    (length hint : ℕ) : Accounts :=
  match s.table.peerAt addr with
  | none => s
  | some p => { s with transfers := (s.transfers.beginSend p addr transferId buffer length hint).2 }

/-- One transfer's turn in `TransferPass`, on the peer's own budget. -/
def transferPass (s : Accounts) (p transferId queued : ℕ) (times : Intervals) (now : ℕ) : Accounts :=
  match s.table.peers p, s.transfers.outbound.find p transferId with
  | some _, some slot =>
    let turn := (Turn.fresh (s.budgets p) (s.transfers.outbound.records slot) queued).run times now
    { s with
      transfers := (s.transfers.pass p transferId (s.budgets p) queued times now).2
      budgets := update s.budgets p turn.peer
      announced := update s.announced p
        (s.announced p + turn.packets.countP Packet.isAnnounce) }
  | _, _ => s

/-- `Transfer_Ack`, which leaves the controller alone when there is nothing to tell it. -/
def transferAck (s : Accounts) (p transferId recvNext : ℕ) (bitmap : List Bool) (now : ℕ)
    (next : PeerBudget) : Accounts :=
  match s.table.peers p, s.transfers.outbound.find p transferId with
  | some _, some slot =>
    let r := s.transfers.onAck p transferId recvNext bitmap now
    let acked := { s with transfers := r.2 }
    if r.1 = .none then acked
    else acked.setBudget p (applyCongestion (s.budgets p) next
      (seqCharges (s.transfers.outbound.records slot).length r.1.freed))
  | _, _ => s

/-- `Transfer_Reject`. -/
def transferReject (s : Accounts) (p transferId : ℕ) : Accounts :=
  match s.table.peers p, s.transfers.outbound.find p transferId with
  | some _, some slot =>
    let r := s.transfers.onRefused p transferId
    { s with transfers := r.2 }.setBudget p (refund (s.budgets p)
      (seqCharges (s.transfers.outbound.records slot).length r.1))
  | _, _ => s

/-- The receiving half of the transfer table, and `PollTransfers`. -/
def transferCall (s : Accounts) : Table.Call → Accounts
  | .beginSend .. | .onAck .. | .onRefused .. | .pass .. | .sweepPeer .. => s
  | c => { s with transfers := s.transfers.call c }

/-! ## Steps -/

inductive Event where
  | registerPeer (slot : ℕ) (addr : Address) (id : Option BcpId)
  | bindId (slot : ℕ) (id : BcpId)
  | updateAddress (slot : ℕ) (addr : Address)
  | removePeer (addr : Address)
  | openFlow (flowId slot : ℕ)
  | closeFlow (slot : ℕ)
  | clearEmitting (assocSlot : ℕ)
  | send (p flowId : ℕ) (acquired : Option ℕ) (post : Posting)
  | drainWaiting (p index candidateEpoch candidateSlot now : ℕ)
  | flowAck (p : ℕ) (acks : List AckEntry) (now : ℕ) (next : PeerBudget)
  | flowReject (p flowId : ℕ) (flowEpoch : UInt8) (recorded : Bool)
  | updateOutFlow (p index now : ℕ) (recorded : Bool) (next : PeerBudget)
  /-- Resends of a tick that never left. -/
  | refundResends (assocSlot : ℕ) (seqs : List ℕ)
  /-- Any other write to a peer: grants, samples, the starvation verdict. -/
  | tune (p : ℕ) (next : PeerBudget)
  | sendTransfer (addr : Address) (transferId : ℕ) (buffer : Option (ℕ → UInt8)) (length hint : ℕ)
  | transferPass (p transferId queued : ℕ) (times : Intervals) (now : ℕ)
  | transferAck (p transferId recvNext : ℕ) (bitmap : List Bool) (now : ℕ) (next : PeerBudget)
  | transferReject (p transferId : ℕ)
  | transferCall (c : Table.Call)

def step (timers : FlowTimers) (s : Accounts) : Event → Accounts
  | .registerPeer slot addr id => s.registerPeer slot addr id
  | .bindId slot id => { s with table := s.table.bindId slot id }
  | .updateAddress slot addr => { s with table := s.table.updateAddress slot addr }
  | .removePeer addr => s.removePeer addr
  | .openFlow flowId slot => { s with table := s.table.openFlow flowId slot }
  | .closeFlow slot => s.closeFlow slot
  | .clearEmitting a => { s with table := s.table.clearEmitting a }
  | .send p flowId acquired post => s.send p flowId acquired post
  | .drainWaiting p index candidateEpoch candidateSlot now =>
    s.drainWaiting p index candidateEpoch candidateSlot now
  | .flowAck p acks now next => s.flowAck timers p acks now next
  | .flowReject p flowId flowEpoch recorded => s.flowReject p flowId flowEpoch recorded
  | .updateOutFlow p index now recorded next => s.updateOutFlow timers p index now recorded next
  | .refundResends a seqs => s.setRing a ((s.rings a).refundResendAttempts seqs)
  | .tune p next => s.setBudget p (retune (s.budgets p) next)
  | .sendTransfer addr transferId buffer length hint =>
    s.sendTransfer addr transferId buffer length hint
  | .transferPass p transferId queued times now => s.transferPass p transferId queued times now
  | .transferAck p transferId recvNext bitmap now next =>
    s.transferAck p transferId recvNext bitmap now next
  | .transferReject p transferId => s.transferReject p transferId
  | .transferCall c => s.transferCall c

/-- The state `Init` leaves, around the transfer table it made. -/
def init (maxPeers maxOutAssocPerPeer flowCount : ℕ) (transfers : Table) : Accounts where
  table := .init maxPeers maxOutAssocPerPeer flowCount
  rings := fun _ => (resetOutAssoc 0 ⟨0, ⟨[], 0, 0⟩, ⟨[]⟩, 0, .unreliable, 0, 0⟩ 0).tearDown .closed
  budgets := fun _ => freshBudget
  transfers := transfers
  announced := fun _ => 0

end Accounts

end BcpFlux.Socket
