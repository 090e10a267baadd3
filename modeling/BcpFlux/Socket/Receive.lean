import BcpFlux.Flow.Directory
import BcpFlux.Flow.Holdback
import BcpFlux.Pool.SlotPool

/-! # The receive side of a socket

Receive slots leased from the kernel's pool, the receiving associations of every peer with
their hold-back, the ready lanes, the handles the application holds, and the counters that
decide whether another packet may be buffered.  Everything happens on one thread; each
event says how much time went by before it.
-/

namespace BcpFlux.Socket
open Library Function
open BcpFlux.Flow (InAssociation InDirEntry ReceiveLimits FlowInEnv DeliveryEnv FlowAdmit Ready
  findFlowSlot admitIn)

/-! ## Configuration -/

def recvReserveDivisor : ℕ := 16
def recvReserveFloor : ℕ := 64
def maxLanes : ℕ := 16
def goldenRatio : ℕ := 0x9E3779B1

structure ReceiveConfig where
  recvSlotCount : ℕ
  recvReserveSlots : ℕ
  pollLanes : ℕ
  maxPeers : ℕ
  limits : ReceiveLimits
deriving DecidableEq, Repr

namespace ReceiveConfig

def poolCapacity (cfg : ReceiveConfig) : ℕ := Pool.nextPowerOfTwo cfg.recvSlotCount

def laneCapacity (cfg : ReceiveConfig) : ℕ := Pool.nextPowerOfTwo cfg.recvSlotCount

/-- `recvHoldCeiling_`: the pool less the reserve. -/
def holdCeiling (cfg : ReceiveConfig) : ℕ :=
  let reserve :=
    if cfg.recvReserveSlots = 0 then max (cfg.recvSlotCount / recvReserveDivisor) recvReserveFloor
    else cfg.recvReserveSlots
  if reserve < cfg.recvSlotCount then cfg.recvSlotCount - reserve else 0

/-- The loop of `ReadyLanes::Init`: the bits of a lane index. -/
def laneBitsFrom (pollLanes : ℕ) : ℕ → ℕ → ℕ
  | 0, bits => bits
  | fuel + 1, bits =>
    if 2 ^ bits < pollLanes ∧ 2 ^ bits < maxLanes then laneBitsFrom pollLanes fuel (bits + 1)
    else bits

def laneBits (cfg : ReceiveConfig) : ℕ := laneBitsFrom cfg.pollLanes maxLanes 0

def laneCount (cfg : ReceiveConfig) : ℕ := 2 ^ cfg.laneBits

def laneOf (cfg : ReceiveConfig) (key : ℕ) : ℕ :=
  if 1 < cfg.laneCount then u32 (key * goldenRatio) >>> (32 - cfg.laneBits) else 0

theorem laneBitsFrom_le (pollLanes fuel bits : ℕ) (h : bits ≤ 4) :
    laneBitsFrom pollLanes fuel bits ≤ 4 := by
  induction fuel generalizing bits with
  | zero => exact h
  | succ fuel ih =>
    rw [laneBitsFrom]
    split_ifs with hmore
    · have hlt : bits < 4 := by
        by_contra hge
        have heq : bits = 4 := by omega
        rw [heq] at hmore
        exact absurd hmore.2 (by decide)
      exact ih (bits + 1) hlt
    · exact h

theorem laneOf_lt (cfg : ReceiveConfig) (key : ℕ) : cfg.laneOf key < cfg.laneCount := by
  rw [laneOf]
  split_ifs with hmany
  · have hbits : cfg.laneBits ≤ 4 := laneBitsFrom_le _ _ _ (by omega)
    have hword : u32 (key * goldenRatio) < 2 ^ 32 := Nat.mod_lt _ (by decide)
    rw [Nat.shiftRight_eq_div_pow, laneCount, Nat.div_lt_iff_lt_mul (Nat.two_pow_pos _),
      ← Nat.pow_add, Nat.add_sub_cancel' (by omega)]
    exact hword
  · exact Nat.two_pow_pos _

end ReceiveConfig

/-! ## State -/

/-- A packet waiting to be polled; only a flow packet is attributed to a peer. -/
structure ReadyEntry where
  slotIndex : ℕ
  peerSlot : Option ℕ
deriving DecidableEq, Repr

def attributedTo (peerSlot : ℕ) (ready : List Ready) : List ReadyEntry :=
  ready.map fun x => ⟨x.packetSlot, some peerSlot⟩

structure Receiver where
  clock : ℕ
  pool : Ledger Unit ℕ
  /-- The receiving associations, by peer slot. -/
  dirs : ℕ → List InDirEntry
  occupancy : ℕ → ℕ
  grant : ℕ → ℕ
  heldTotal : ℕ
  lanes : ℕ → List ReadyEntry
  /-- Receive slots the application holds. -/
  handles : List ℕ
  /-- When an association last delivered in its present generation, by peer slot and id. -/
  lastDelivery : ℕ → ℕ → Option ℕ

namespace Receiver

def start (grants : ℕ → ℕ) : Receiver where
  clock := 0
  pool := ⟨fun _ => ∅, 0⟩
  dirs := fun _ => []
  occupancy := fun _ => 0
  grant := grants
  heldTotal := 0
  lanes := fun _ => []
  handles := []
  lastDelivery := fun _ _ => none

def hasRoomFor (cfg : ReceiveConfig) (s : Receiver) (peerSlot : ℕ) : Bool :=
  !(s.grant peerSlot != 0 && decide (s.grant peerSlot ≤ s.occupancy peerSlot))
    && decide (s.heldTotal < cfg.holdCeiling)

/-- What a delivery for this peer is answered by the shared tables.  All its pushes go to
one lane, each one entry further. -/
def deliveryEnv (cfg : ReceiveConfig) (laneCapacity : ℕ) (s : Receiver) (peerSlot : ℕ) :
    DeliveryEnv where
  now := s.clock
  hasRoomFor := s.hasRoomFor cfg peerSlot
  push := fun k => decide ((s.lanes (cfg.laneOf peerSlot)).length + k < laneCapacity)

/-! ## Operations -/

/-- Held slots back to the pool, with every count that was raised when they were held.
`ReleaseOne` stops at zero, the total wraps. -/
def giveBack (s : Receiver) (peerSlot : ℕ) (slots : List ℕ) : Receiver :=
  { s with
    pool := s.pool.releaseAll () slots
    occupancy := update s.occupancy peerSlot (s.occupancy peerSlot - slots.length)
    heldTotal := u32 (s.heldTotal + slots.length * (2 ^ 32 - 1)) }

/-- The packet's own slot, when nothing detached it. -/
def dropSlot (s : Receiver) (slot : ℕ) : Receiver := { s with pool := s.pool.release () slot }

/-- What the old generation holds when an admission reopens its association. -/
def reopened (s : Receiver) (peerSlot flowId : ℕ) (verdict : FlowAdmit) : List ℕ :=
  match verdict, findFlowSlot (s.dirs peerSlot) flowId with
  | .reopened, some (e, _) => e.assoc.heldSlots
  | _, _ => []

/-- A flow packet as `ProcessFlowIn` sees it. -/
structure FlowPacket where
  peerSlot : ℕ
  addr : Address
  id : BcpId
  flowId : ℕ
  flowData : UInt8
  seq : ℕ

/-- `AdmitIn`: the association, and the packets of a generation it replaces given back. -/
def admitPacket (cfg : ReceiveConfig) (laneCapacity : ℕ) (s : Receiver) (m : FlowPacket)
    (acquired : Option InAssociation) (recorded : Bool) :
    Receiver × Option (ℕ × ℕ) :=
  let a := admitIn cfg.limits ⟨s.deliveryEnv cfg laneCapacity m.peerSlot, acquired, recorded⟩
    (s.dirs m.peerSlot) ⟨m.peerSlot, m.addr, m.id⟩ m.flowId m.flowData
  let fresh := decide (a.2.1 = .registered ∨ a.2.1 = .reopened)
  ({ s.giveBack m.peerSlot (s.reopened m.peerSlot m.flowId a.2.1) with
      dirs := update s.dirs m.peerSlot a.1
      lastDelivery :=
        if fresh then
          update s.lastDelivery m.peerSlot
            (update (s.lastDelivery m.peerSlot) m.flowId none)
        else s.lastDelivery },
    a.2.2)

/-- `DeliverIn` on the association an admission found: what is queued goes to the lane, and
the packet's slot is pinned or let go. -/
def deliver (cfg : ReceiveConfig) (laneCapacity : ℕ) (s : Receiver) (m : FlowPacket)
    (slot i epoch : ℕ) : Receiver :=
  match (s.dirs m.peerSlot)[i]? with
  | none => s.dropSlot slot
  | some e =>
    let r := e.assoc.deliverIn (s.deliveryEnv cfg laneCapacity m.peerSlot) m.flowId epoch m.seq slot
    let lane := cfg.laneOf m.peerSlot
    let s' := { s with
      dirs := update s.dirs m.peerSlot
        ((s.dirs m.peerSlot).set i { e with assoc := r.1 })
      lanes := update s.lanes lane
        (s.lanes lane ++ attributedTo m.peerSlot r.2)
      lastDelivery :=
        if r.2 = [] then s.lastDelivery
        else update s.lastDelivery m.peerSlot
          (update (s.lastDelivery m.peerSlot) m.flowId (some s.clock)) }
    if e.assoc.pins r then
      { s' with
        occupancy := update s.occupancy m.peerSlot (s.occupancy m.peerSlot + 1)
        heldTotal := u32 (s.heldTotal + 1) }
    else s'.dropSlot slot

/-- `ProcessFlowIn` on a packet received into `slot`. -/
def flowPacket (cfg : ReceiveConfig) (laneCapacity : ℕ) (s : Receiver) (m : FlowPacket) (slot : ℕ)
    (acquired : Option InAssociation) (recorded : Bool) : Receiver :=
  if m.flowId = Flow.invalidFlowId ∨ m.seq = 0 then s.dropSlot slot
  else
    match s.admitPacket cfg laneCapacity m acquired recorded with
    | (s', none) => s'.dropSlot slot
    | (s', some (i, epoch)) => s'.deliver cfg laneCapacity m slot i epoch

/-- `QueueReady` for a packet without a flow, unattributed. -/
def plainPacket (cfg : ReceiveConfig) (laneCapacity : ℕ) (s : Receiver) (key slot : ℕ) : Receiver :=
  let lane := cfg.laneOf key
  if (s.lanes lane).length < laneCapacity then
    { s with lanes := update s.lanes lane (s.lanes lane ++ [⟨slot, none⟩]) }
  else s.dropSlot slot

/-- One turn of the loop of `Poll`. -/
def handOver (s : Receiver) (entry : ReadyEntry) : Receiver :=
  match entry.peerSlot with
  | none => { s with handles := entry.slotIndex :: s.handles }
  | some p =>
    { s with
      handles := entry.slotIndex :: s.handles
      occupancy := update s.occupancy p (s.occupancy p - 1)
      heldTotal := u32 (s.heldTotal + (2 ^ 32 - 1)) }

/-- `Poll` on a claimed lane. -/
def poll (s : Receiver) (lane : ℕ) : ℕ → Receiver
  | 0 => s
  | max + 1 =>
    match s.lanes lane with
    | [] => s
    | entry :: rest =>
      poll ({ s with lanes := update s.lanes lane rest }.handOver entry) lane max

def releaseHandle (s : Receiver) (i : ℕ) : Receiver :=
  match s.handles[i]? with
  | none => s
  | some slot => { s.dropSlot slot with handles := s.handles.eraseIdx i }

/-- One turn of the loop of `ReclaimJammedInFlows`. -/
def reclaimEntry (cfg : ReceiveConfig) (s : Receiver) (peerSlot i : ℕ) : Receiver :=
  match (s.dirs peerSlot)[i]? with
  | none => s
  | some e =>
    let jammed := e.assoc.inAssocJammed cfg.limits.flowStallTimeout s.clock
    let r := e.assoc.reclaimJammed cfg.limits.flowStallTimeout s.clock
    { s.giveBack peerSlot (if jammed then e.assoc.heldSlots else []) with
      dirs := update s.dirs peerSlot ((s.dirs peerSlot).set i { e with assoc := r.1 }) }

def reclaim (cfg : ReceiveConfig) (s : Receiver) (peerSlot : ℕ) : Receiver :=
  (List.range (s.dirs peerSlot).length).foldl (fun s i => s.reclaimEntry cfg peerSlot i) s

/-- One association's part in an acknowledgement packet. -/
def flushAck (s : Receiver) (peerSlot i room : ℕ) : Receiver :=
  match (s.dirs peerSlot)[i]? with
  | none => s
  | some e =>
    { s with
      dirs := update s.dirs peerSlot
        ((s.dirs peerSlot).set i { e with assoc := (e.assoc.takeAckEntry s.clock room).1 }) }

/-- The receiving half of `SweepPeer`: each association is unpublished and drained. -/
def sweepPeer (s : Receiver) (peerSlot : ℕ) : ℕ → Receiver
  | 0 => s
  | turns + 1 =>
    match s.dirs peerSlot with
    | [] => s
    | e :: rest =>
      sweepPeer { s.giveBack peerSlot e.assoc.heldSlots with
        dirs := update s.dirs peerSlot rest } peerSlot turns

/-- `SeedPeerRecvState` for a newly registered peer. -/
def seedPeer (s : Receiver) (peerSlot recvGrant : ℕ) : Receiver :=
  { s with
    occupancy := update s.occupancy peerSlot 0
    grant := update s.grant peerSlot recvGrant }

/-! ## Steps -/

inductive Event where
  /-- A flow packet received into `slot`; `acquired` and `recorded` answer for the
  association pool and the event table. -/
  | flowPacket (m : FlowPacket) (slot : ℕ) (acquired : Option InAssociation) (recorded : Bool)
  /-- A packet without a flow, whose address hashes to `key`. -/
  | plainPacket (key slot : ℕ)
  | poll (lane max : ℕ)
  | releaseHandle (i : ℕ)
  | reclaim (peerSlot : ℕ)
  | flushAck (peerSlot i room : ℕ)
  | removePeer (peerSlot : ℕ)
  | seedPeer (peerSlot recvGrant : ℕ)
  | setGrant (peerSlot slots : ℕ)

/-- A packet is received only into a slot of the pool that is free. -/
def receivable (cfg : ReceiveConfig) (s : Receiver) (slot : ℕ) : Bool :=
  decide (slot < cfg.poolCapacity ∧ slot ∉ s.pool.leased ())

def lease (s : Receiver) (slot : ℕ) : Receiver := { s with pool := s.pool.acquire () slot }

/-- One event, with the room of a ready lane as a parameter. -/
def stepWith (cfg : ReceiveConfig) (laneCapacity : ℕ) (s : Receiver) : Event → Receiver
  | .flowPacket m slot acquired recorded =>
    if s.receivable cfg slot ∧ m.peerSlot < cfg.maxPeers then
      (s.lease slot).flowPacket cfg laneCapacity m slot acquired recorded
    else s
  | .plainPacket key slot =>
    if s.receivable cfg slot then (s.lease slot).plainPacket cfg laneCapacity key slot else s
  | .poll lane max => if lane < cfg.laneCount then s.poll lane max else s
  | .releaseHandle i => s.releaseHandle i
  | .reclaim p => if p < cfg.maxPeers then s.reclaim cfg p else s
  | .flushAck p i room => if p < cfg.maxPeers then s.flushAck p i room else s
  | .removePeer p => if p < cfg.maxPeers then s.sweepPeer p (s.dirs p).length else s
  | .seedPeer p recvGrant => s.seedPeer p recvGrant
  | .setGrant p slots => { s with grant := update s.grant p slots }

/-- One event, so much time after the one before. -/
def step (cfg : ReceiveConfig) (s : Receiver) (e : ℕ × Event) : Receiver :=
  { s with clock := s.clock + e.1 }.stepWith cfg cfg.laneCapacity e.2

end Receiver

end BcpFlux.Socket
