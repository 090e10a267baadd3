import BcpFlux.Basic
import BcpFlux.Flow.Mode
import Mathlib.Logic.Function.Basic

/-! # Who lists a sending association

Three structures name a sending association: the outbound directory of its peer, the
association list of its flow, and the pool that leases its slot.  The table here holds
what `AdmitOut`, `CloseFlow`, `RemovePeer` and the address changes of a peer read and
write of them.  Which free slot a pool hands out is part of the call.  A directory is the
list of its entries in use, and a flow's chain of `nextInFlow` links the list of the slots
along it.
-/

namespace BcpFlux.Flow
open Function

structure Endpoint where
  addr : Address
  /-- Set once the peer has proved an identity. -/
  id : Option BcpId
deriving DecidableEq, Repr

/-- What the bookkeeping reads of a sending association.  The address and the identity are
those of the peer when the association was created. -/
structure AssocRecord where
  peerSlot : ℕ
  peerAddr : Address
  peerId : Option BcpId
  flowId : ℕ
  flowSlot : Option ℕ
  life : FlowLifecycle
  /-- An event about it has not been read. -/
  emitting : Bool
deriving DecidableEq, Repr

structure FlowDirEntry where
  flowId : ℕ
  assocSlot : ℕ
deriving DecidableEq, Repr

structure FlowSlot where
  /-- A free slot has none. -/
  flowId : Option ℕ
  life : FlowLifecycle
  /-- `firstAssoc` and the links behind it. -/
  assocs : List ℕ
deriving DecidableEq, Repr

structure AssocTable where
  maxPeers : ℕ
  maxOutAssocPerPeer : ℕ
  flowCount : ℕ
  peers : ℕ → Option Endpoint
  dirs : ℕ → List FlowDirEntry
  flows : ℕ → FlowSlot
  assocs : ℕ → AssocRecord
  leased : ℕ → Bool

namespace AssocTable

/-! ## Lookups -/

/-- `GetPeer` by address. -/
def peerAt (t : AssocTable) (addr : Address) : Option ℕ :=
  (List.range t.maxPeers).find? fun p => decide ((t.peers p).map Endpoint.addr = some addr)

/-- `GetPeer` by identity. -/
def peerWithId (t : AssocTable) (id : BcpId) : Option ℕ :=
  (List.range t.maxPeers).find? fun p => decide ((t.peers p).bind Endpoint.id = some id)

def findFlowById (t : AssocTable) (flowId : ℕ) : Option ℕ :=
  (List.range t.flowCount).find? fun f => decide ((t.flows f).flowId = some flowId)

def findOutAssoc (t : AssocTable) (peerSlot flowId : ℕ) : Option ℕ :=
  ((t.dirs peerSlot).find? fun e => e.flowId = flowId).map FlowDirEntry.assocSlot

/-! ## Creation -/

def setAssoc (t : AssocTable) (a : ℕ) (assoc : AssocRecord) : AssocTable :=
  { t with assocs := update t.assocs a assoc }

/-- Publish a leased, freshly written association in the directory and on the flow's list. -/
def publish (t : AssocTable) (a : ℕ) (assoc : AssocRecord) (f : ℕ) : AssocTable :=
  { t with
    dirs := update t.dirs assoc.peerSlot (t.dirs assoc.peerSlot ++ [⟨assoc.flowId, a⟩])
    flows := update t.flows f { t.flows f with assocs := a :: (t.flows f).assocs }
    assocs := update t.assocs a { assoc with flowSlot := some f }
    leased := update t.leased a true }

/-- `CreateAssociation` for a registered peer; `acquired` is what the pool answers. -/
def createAssociation (t : AssocTable) (peerSlot : ℕ) (peer : Endpoint) (flowId : ℕ)
    (acquired : Option ℕ) : AssocTable :=
  match t.findFlowById flowId, acquired with
  | some f, some a =>
    if (t.flows f).life ≠ .opened ∨ t.leased a = true then t
    else
      let assoc : AssocRecord := ⟨peerSlot, peer.addr, peer.id, flowId, none, .opened, false⟩
      if (t.dirs peerSlot).length < t.maxOutAssocPerPeer then t.publish a assoc f
      -- the peer is at its cap: the slot goes back as it was written
      else t.setAssoc a assoc
  | _, _ => t

/-- `AdmitOut`: find the association, or create it on the first send. -/
def admitOut (t : AssocTable) (peerSlot flowId : ℕ) (acquired : Option ℕ) : AssocTable :=
  match t.peers peerSlot, t.findOutAssoc peerSlot flowId with
  | some peer, none => t.createAssociation peerSlot peer flowId acquired
  | _, _ => t

/-! ## Teardown -/

/-- `EraseFlowSlot`. -/
def unpublishOut (t : AssocTable) (peerSlot a : ℕ) : AssocTable :=
  { t with
    dirs := update t.dirs peerSlot
      ((t.dirs peerSlot).eraseP fun e => e.assocSlot = a) }

def unlinkAssociation (t : AssocTable) (f a : ℕ) : AssocTable :=
  if a ∈ (t.flows f).assocs then
    { t with
      flows := update t.flows f { t.flows f with assocs := (t.flows f).assocs.erase a }
      assocs := update t.assocs a { t.assocs a with flowSlot := none } }
  else t

def unlinkFromOwner (t : AssocTable) (a : ℕ) : AssocTable :=
  match (t.assocs a).flowSlot with
  | none => t
  | some f => t.unlinkAssociation f a

/-- `FreeAssoc`: a slot with an unread event stays leased until the event has been read. -/
def freeAssoc (t : AssocTable) (a : ℕ) : AssocTable :=
  let t := t.unlinkFromOwner a
  { t with
    assocs := update t.assocs a { t.assocs a with life := .closed }
    leased := update t.leased a (t.leased a && (t.assocs a).emitting) }

/-- The loop of `SweepPeer` over the directory of one peer, at most `turns` entries. -/
def sweepDir (p : ℕ) : ℕ → AssocTable → AssocTable
  | 0, t => t
  | turns + 1, t =>
    match t.dirs p with
    | [] => t
    | e :: _ => sweepDir p turns ((t.unpublishOut p e.assocSlot).freeAssoc e.assocSlot)

/-- `RemovePeer`: the sweep, and the peer's own slot. -/
def removePeer (t : AssocTable) (addr : Address) : AssocTable :=
  match t.peerAt addr with
  | none => t
  | some p =>
    let t := sweepDir p (t.dirs p).length t
    { t with peers := update t.peers p none }

/-- The peer `CloseFlow` takes an association to belong to: by the identity the association
was created with, by its address if there was none. -/
def ownerOf (t : AssocTable) (a : ℕ) : Option ℕ :=
  match (t.assocs a).peerId with
  | some id => t.peerWithId id
  | none => t.peerAt (t.assocs a).peerAddr

/-- One turn of the loop of `CloseFlow`. -/
def closeAssoc (t : AssocTable) (a : ℕ) : AssocTable :=
  match t.ownerOf a with
  | some p => (t.unpublishOut p a).freeAssoc a
  | none => t.freeAssoc a

/-- The loop of `CloseFlow`, at most `turns` associations. -/
def closeAssocs (f : ℕ) : ℕ → AssocTable → AssocTable
  | 0, t => t
  | turns + 1, t =>
    match (t.flows f).assocs with
    | [] => t
    | a :: _ => closeAssocs f turns (t.closeAssoc a)

def setFlow (t : AssocTable) (f : ℕ) (flow : FlowSlot) : AssocTable :=
  { t with flows := update t.flows f flow }

def closeFlow (t : AssocTable) (f : ℕ) : AssocTable :=
  if (t.flows f).life = .opened then
    let t := t.setFlow f { t.flows f with life := .closing }
    let t := closeAssocs f (t.flows f).assocs.length t
    t.setFlow f { t.flows f with flowId := none, life := .closed }
  else t

/-! ## Steps -/

inductive Event where
  /-- `RegisterPeer` into the slot the pool gave. -/
  | registerPeer (slot : ℕ) (addr : Address) (id : Option BcpId)
  | bindId (slot : ℕ) (id : BcpId)
  /-- `UpdateAddress`, when a migration is validated. -/
  | updateAddress (slot : ℕ) (addr : Address)
  | removePeer (addr : Address)
  /-- `OpenFlow` into the slot the pool gave. -/
  | openFlow (flowId slot : ℕ)
  | closeFlow (slot : ℕ)
  /-- A flow packet is admitted towards a peer. -/
  | send (peerSlot flowId : ℕ) (acquired : Option ℕ)
  /-- `FailAssoc`, with the event that reports it when `recorded`. -/
  | failAssoc (assocSlot : ℕ) (recorded : Bool)
  /-- `ClearEmitting` after the event was read; there is one to read while the flag is up. -/
  | clearEmitting (assocSlot : ℕ)

/-- `RegisterPeer`, when the address and the identity are new. -/
def registerPeer (t : AssocTable) (slot : ℕ) (addr : Address) (id : Option BcpId) : AssocTable :=
  if slot < t.maxPeers ∧ t.peers slot = none ∧ t.peerAt addr = none ∧ id.bind t.peerWithId = none
  then { t with peers := update t.peers slot (some ⟨addr, id⟩) }
  else t

def bindId (t : AssocTable) (slot : ℕ) (id : BcpId) : AssocTable :=
  match t.peers slot with
  | some ⟨addr, none⟩ =>
    if t.peerWithId id = none
    then { t with peers := update t.peers slot (some ⟨addr, some id⟩) }
    else t
  | _ => t

def updateAddress (t : AssocTable) (slot : ℕ) (addr : Address) : AssocTable :=
  match t.peers slot with
  | some ⟨_, id⟩ =>
    if t.peerAt addr = none
    then { t with peers := update t.peers slot (some ⟨addr, id⟩) }
    else t
  | none => t

def openFlow (t : AssocTable) (flowId slot : ℕ) : AssocTable :=
  if slot < t.flowCount ∧ (t.flows slot).flowId = none ∧ t.findFlowById flowId = none
  then t.setFlow slot ⟨some flowId, .opened, []⟩
  else t

def failAssoc (t : AssocTable) (a : ℕ) (recorded : Bool) : AssocTable :=
  if t.leased a = true ∧ (t.assocs a).life = .opened then
    t.setAssoc a { t.assocs a with
      life := .failed
      emitting := (t.assocs a).emitting || recorded }
  else t

def clearEmitting (t : AssocTable) (a : ℕ) : AssocTable :=
  if (t.assocs a).emitting then
    let read := t.setAssoc a { t.assocs a with emitting := false }
    if (t.assocs a).life = .closed
    then { read with leased := update t.leased a false }
    else read
  else t

def step (t : AssocTable) : Event → AssocTable
  | .registerPeer slot addr id => t.registerPeer slot addr id
  | .bindId slot id => t.bindId slot id
  | .updateAddress slot addr => t.updateAddress slot addr
  | .removePeer addr => t.removePeer addr
  | .openFlow flowId slot => t.openFlow flowId slot
  | .closeFlow slot => t.closeFlow slot
  | .send peerSlot flowId acquired => t.admitOut peerSlot flowId acquired
  | .failAssoc a recorded => t.failAssoc a recorded
  | .clearEmitting a => t.clearEmitting a

def init (maxPeers maxOutAssocPerPeer flowCount : ℕ) : AssocTable where
  maxPeers := maxPeers
  maxOutAssocPerPeer := maxOutAssocPerPeer
  flowCount := flowCount
  peers := fun _ => none
  dirs := fun _ => []
  flows := fun _ => ⟨none, .closed, []⟩
  assocs := fun _ => ⟨0, ⟨[], 0, 0⟩, none, 0, none, .closed, false⟩
  leased := fun _ => false

end AssocTable

end BcpFlux.Flow
