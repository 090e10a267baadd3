import BcpFlux.Basic
import BcpFlux.Library.Ring
import BcpFlux.Flow.Mode

/-! # The receiving association

`InAssociation` with its seen bitmap and hold-back ring, and the functions of
`flow_table.cpp` that deliver into it, reclaim it and report on it.  What a
delivery asks of state shared between peers (room under the grant, room in the
ready lane) arrives as an answer in `DeliveryEnv`, so that every result holds
for all answers.
-/

namespace BcpFlux.Flow
open Library

/-- Ranges one acknowledgement entry carries at most. -/
def flowAckRangeCount : ℕ := 16

def wireAckEntryHeadSize : ℕ := 10

/-- One packet received ahead of order; no slot means the cell is free. -/
structure HoldbackEntry where
  seq : ℕ
  packetSlot : Option ℕ
deriving DecidableEq, Repr

def HoldbackEntry.free : HoldbackEntry := ⟨0, none⟩

structure AckRange where
  first : ℕ
  last : ℕ
deriving DecidableEq, Repr

structure InAssociation where
  peerSlot : ℕ
  peerAddr : Address
  peerId : BcpId
  flowId : ℕ
  mode : FlowMode
  flowEpoch : UInt8
  life : FlowLifecycle
  emitting : Bool
  ackImmediate : Bool
  epoch : ℕ
  recvNext : ℕ
  recvHighest : ℕ
  newSinceFlush : ℕ
  lastProgressMicros : ℕ
  ackArmedMicros : ℕ
  newestArrivalMicros : ℕ
  windowBits : ℕ
  reorderCap : ℕ
  seen : ℕ → Bool
  holdback : ℕ → HoldbackEntry
  heldCount : ℕ

def InAssociation.raw : InAssociation :=
  ⟨0, ⟨[], 0, 0⟩, ⟨[]⟩, 0, .reliableOrdered, 0, .closed, false, false, 0, 0, 0, 0, 0, 0, 0, 0, 0,
    fun _ => false, fun _ => .free, 0⟩

/-- What `ResetInAssoc` is handed by its two callers. -/
structure InAssocParams where
  peerSlot : ℕ
  peerAddr : Address
  peerId : BcpId
  flowId : ℕ
  mode : FlowMode
  flowEpoch : UInt8

/-- Write every field of a freshly leased slot; only the lease epoch survives, and
advances.  Both callers take the window and the reorder depth from the mode. -/
def resetInAssoc (old : InAssociation) (p : InAssocParams) (now : ℕ) : InAssociation where
  peerSlot := p.peerSlot
  peerAddr := p.peerAddr
  peerId := p.peerId
  flowId := p.flowId
  mode := p.mode
  flowEpoch := p.flowEpoch
  life := .opened
  emitting := false
  ackImmediate := false
  epoch := u32 (old.epoch + 1)
  recvNext := 1
  recvHighest := 0
  newSinceFlush := 0
  lastProgressMicros := now
  ackArmedMicros := 0
  newestArrivalMicros := 0
  windowBits := windowFor p.mode
  reorderCap := reorderCapFor p.mode
  seen := fun _ => false
  holdback := fun _ => .free
  heldCount := 0

namespace InAssociation

/-! ## The seen bitmap -/

/-- Lowest sequence a window of `bits` below `high` still tracks. -/
def windowFloor (bits high : ℕ) : ℕ := if bits ≤ high then high - bits + 1 else 1

def seenTest (flow : InAssociation) (seq : ℕ) : Bool := flow.seen (slot flow.windowBits seq)

/-- Slide the window up to `seq`, retiring the bits that fall out of it. -/
def slideSeen (flow : InAssociation) (seq : ℕ) : InAssociation :=
  let bits := flow.windowBits
  let oldFloor := windowFloor bits flow.recvHighest
  { flow with
    seen :=
      if bits ≤ seq - flow.recvHighest then fun _ => false
      else fill bits false oldFloor (windowFloor bits seq - oldFloor) flow.seen
    recvHighest := seq }

def commitSeen (flow : InAssociation) (seq : ℕ) : InAssociation :=
  let flow := if flow.recvHighest < seq then flow.slideSeen seq else flow
  { flow with seen := put flow.windowBits flow.seen seq true }

def alreadySeen (flow : InAssociation) (seq : ℕ) : Bool :=
  if flow.recvHighest < seq then false
  else if seq < windowFloor flow.windowBits flow.recvHighest then true
  else flow.seenTest seq

/-! ## Owed acknowledgements -/

def armAck (flow : InAssociation) (now : ℕ) : InAssociation :=
  { flow with
    ackArmedMicros := if flow.newSinceFlush = 0 then now else flow.ackArmedMicros
    newSinceFlush :=
      if flow.newSinceFlush < uint32Max then flow.newSinceFlush + 1 else flow.newSinceFlush }

def armAckForArrival (flow : InAssociation) (now : ℕ) (committed : Bool) : InAssociation :=
  let flow := flow.armAck now
  if committed then { flow with newestArrivalMicros := now } else flow

/-- Walk down while the bit differs from `want`, never below `floor`. -/
def skipSeen (flow : InAssociation) (floor : ℕ) (want : Bool) : ℕ → ℕ
  | 0 => 0
  | s + 1 =>
    if floor ≤ s + 1 ∧ flow.seenTest (s + 1) ≠ want then flow.skipSeen floor want s else s + 1

/-- The outer loop of `BuildAckRanges`, at most `maxRanges` more ranges from `s` down. -/
def ackRangesFrom (flow : InAssociation) (floor : ℕ) : ℕ → ℕ → List AckRange
  | 0, _ => []
  | maxRanges + 1, s =>
    let last := flow.skipSeen floor true s
    if last < floor then []
    else
      let below := flow.skipSeen floor false last
      ⟨below + 1, last⟩ :: (if below < floor then [] else flow.ackRangesFrom floor maxRanges below)

/-- Coalesce the set bits into ranges, newest first. -/
def buildAckRanges (flow : InAssociation) (maxRanges : ℕ) : List AckRange :=
  if flow.recvHighest = 0 ∨ maxRanges = 0 then []
  else flow.ackRangesFrom (windowFloor flow.windowBits flow.recvHighest) maxRanges flow.recvHighest

end InAssociation

structure AckEntry where
  flowId : ℕ
  flowEpoch : UInt8
  recvNext : ℕ
  ackDelay : ℕ
  ranges : List AckRange
deriving DecidableEq, Repr

namespace InAssociation

/-- The entry `BuildPeerAckBody` writes for this association when `room` bytes of
the body are left.  An entry that does not fit keeps its owed counters. -/
def takeAckEntry (flow : InAssociation) (now room : ℕ) : InAssociation × Option AckEntry :=
  if flow.life = .opened ∧ 0 < flow.newSinceFlush then
    let flow := { flow with ackImmediate := false }
    let ranges := flow.buildAckRanges flowAckRangeCount
    if wireAckEntryHeadSize + ranges.length * 8 ≤ room then
      let held := if flow.newestArrivalMicros = 0 then 0 else elapsed now flow.newestArrivalMicros
      ({ flow with newSinceFlush := 0, ackArmedMicros := 0 },
        some ⟨flow.flowId, flow.flowEpoch, flow.recvNext, min held uint16Max, ranges⟩)
    else (flow, none)
  else (flow, none)

end InAssociation

/-- The answers of the shared tables during one delivery: the clock, whether the
peer may pin another receive slot, and whether each push finds its lane open. -/
structure DeliveryEnv where
  now : ℕ
  hasRoomFor : Bool
  push : ℕ → Bool

/-- A packet handed to the ready lane, tagged with the sequence it carries. -/
structure Ready where
  seq : ℕ
  packetSlot : ℕ
deriving DecidableEq, Repr

namespace InAssociation

/-! ## Delivery -/

def deliverUnordered (env : DeliveryEnv) (flow : InAssociation) (incoming seq : ℕ) :
    InAssociation × List Ready :=
  if flow.alreadySeen seq then (flow.armAckForArrival env.now false, [])
  else if flow.mode = .unreliable ∧ seq ≤ flow.recvHighest then
    ((flow.commitSeen seq).armAckForArrival env.now true, [])
  else if !env.hasRoomFor then (flow.armAckForArrival env.now false, [])
  else if !env.push 0 then (flow, [])
  else ((flow.commitSeen seq).armAckForArrival env.now true, [⟨seq, incoming⟩])

def popCursor (flow : InAssociation) : InAssociation :=
  { flow with
    holdback := put flow.reorderCap flow.holdback flow.recvNext .free
    heldCount := flow.heldCount - 1
    recvNext := succSeq flow.recvNext }

/-- `DrainHoldbackRun`.  Every turn empties one cell, so a ring of `reorderCap`
cells bounds the turns; `pushed` counts the pushes this delivery already made. -/
def drainHoldbackRun (env : DeliveryEnv) : ℕ → ℕ → InAssociation → InAssociation × List Ready
  | 0, _, flow => (flow, [])
  | fuel + 1, pushed, flow =>
    if flow.reorderCap = 0 then (flow, [])
    else
      let held := flow.holdback (slot flow.reorderCap flow.recvNext)
      match held.packetSlot with
      | none => (flow, [])
      | some packetSlot =>
        if held.seq ≠ flow.recvNext then (flow, [])
        else if !env.push pushed then (flow, [])
        else
          let rest := drainHoldbackRun env fuel (pushed + 1) flow.popCursor
          (rest.1, ⟨held.seq, packetSlot⟩ :: rest.2)

def holdPacket (env : DeliveryEnv) (flow : InAssociation) (incoming seq : ℕ) : InAssociation :=
  let flow := { flow with
    holdback := put flow.reorderCap flow.holdback seq ⟨seq, some incoming⟩
    heldCount := flow.heldCount + 1 }
  ({ flow.commitSeen seq with ackImmediate := true }).armAckForArrival env.now true

/-- Commit the packet just queued at the cursor and step past it. -/
def advanceCursor (env : DeliveryEnv) (flow : InAssociation) (seq : ℕ) : InAssociation :=
  { (flow.commitSeen seq).armAckForArrival env.now true with recvNext := succSeq seq }

def deliverOrdered (env : DeliveryEnv) (flow : InAssociation) (incoming seq : ℕ) :
    InAssociation × List Ready :=
  if seq < flow.recvNext then
    (({ flow with ackImmediate := true }).armAckForArrival env.now false, [])
  else if seq = flow.recvNext then
    if flow.heldCount = 0 ∧ env.hasRoomFor = false then (flow.armAckForArrival env.now false, [])
    else if !env.push 0 then (flow, [])
    else
      let rest := drainHoldbackRun env (flow.reorderCap + 1) 1 (flow.advanceCursor env seq)
      (rest.1, ⟨seq, incoming⟩ :: rest.2)
  else if 0 < flow.reorderCap ∧ env.hasRoomFor = true ∧ seq < u32 (flow.recvNext + flow.reorderCap)
  then
    -- An occupied cell is a duplicate of what it holds: the packet is dropped unacknowledged.
    if (flow.holdback (slot flow.reorderCap seq)).packetSlot = none then
      (flow.holdPacket env incoming seq, [])
    else (flow, [])
  else (({ flow with ackImmediate := true }).armAckForArrival env.now false, [])

/-- `DeliverIn`: the lease epoch and the flow id separate this association from a
later tenant of its slot, and only a moving cursor counts as progress. -/
def deliverIn (env : DeliveryEnv) (flow : InAssociation) (flowId assocEpoch seq incoming : ℕ) :
    InAssociation × List Ready :=
  if flow.epoch = assocEpoch ∧ flow.life = .opened ∧ flow.flowId = flowId then
    let r := if isOrdered flow.mode then flow.deliverOrdered env incoming seq
      else flow.deliverUnordered env incoming seq
    (if r.1.recvNext ≠ flow.recvNext then { r.1 with lastProgressMicros := env.now } else r.1, r.2)
  else (flow, [])

/-! ## Jam reclaim -/

def inAssocJammed (stallTimeout now : ℕ) (flow : InAssociation) : Bool :=
  decide (0 < flow.reorderCap ∧ flow.recvNext ≤ flow.recvHighest ∧
    stallTimeout < elapsed now flow.lastProgressMicros)

/-- What `DropInHoldback` does at one cell: release an occupied cell and take the
seen bit back with it.  The accumulator is the bitmap, the held count and the
number of packets dropped. -/
def dropCell (bits : ℕ) (e : HoldbackEntry) (acc : (ℕ → Bool) × ℕ × ℕ) :
    HoldbackEntry × ((ℕ → Bool) × ℕ × ℕ) :=
  match e.packetSlot with
  | none => (e, acc)
  | some _ => (.free, (put bits acc.1 e.seq false, acc.2.1 - 1, acc.2.2 + 1))

def dropInHoldback (flow : InAssociation) : InAssociation × ℕ :=
  if flow.reorderCap = 0 then (flow, 0)
  else
    let r := scan (dropCell flow.windowBits) flow.reorderCap flow.holdback
      (flow.seen, flow.heldCount, 0)
    ({ flow with holdback := r.1, seen := r.2.1, heldCount := r.2.2.1 }, r.2.2.2)

/-- The body of `ReclaimJammedInFlows` for one association. -/
def reclaimJammed (stallTimeout now : ℕ) (flow : InAssociation) : InAssociation × ℕ :=
  if inAssocJammed stallTimeout now flow then
    let r := flow.dropInHoldback
    ({ r.1.armAck now with lastProgressMicros := now }, r.2)
  else (flow, 0)

/-! ## What commitment and acknowledgement leave alone -/

section Frame
variable (flow : InAssociation) (seq now : ℕ) (committed : Bool)

@[simp] theorem commitSeen_recvNext : (flow.commitSeen seq).recvNext = flow.recvNext := by
  unfold commitSeen; split <;> rfl

@[simp] theorem commitSeen_holdback : (flow.commitSeen seq).holdback = flow.holdback := by
  unfold commitSeen; split <;> rfl

@[simp] theorem commitSeen_mode : (flow.commitSeen seq).mode = flow.mode := by
  unfold commitSeen; split <;> rfl

@[simp] theorem commitSeen_windowBits : (flow.commitSeen seq).windowBits = flow.windowBits := by
  unfold commitSeen; split <;> rfl

@[simp] theorem commitSeen_reorderCap : (flow.commitSeen seq).reorderCap = flow.reorderCap := by
  unfold commitSeen; split <;> rfl

@[simp] theorem commitSeen_recvHighest :
    (flow.commitSeen seq).recvHighest = max flow.recvHighest seq := by
  simp only [commitSeen]
  split
  · simp only [slideSeen]; omega
  · omega

@[simp] theorem armAckForArrival_recvNext :
    (flow.armAckForArrival now committed).recvNext = flow.recvNext := by
  cases committed <;> rfl

@[simp] theorem armAckForArrival_holdback :
    (flow.armAckForArrival now committed).holdback = flow.holdback := by
  cases committed <;> rfl

@[simp] theorem armAckForArrival_mode :
    (flow.armAckForArrival now committed).mode = flow.mode := by
  cases committed <;> rfl

@[simp] theorem armAckForArrival_windowBits :
    (flow.armAckForArrival now committed).windowBits = flow.windowBits := by
  cases committed <;> rfl

@[simp] theorem armAckForArrival_reorderCap :
    (flow.armAckForArrival now committed).reorderCap = flow.reorderCap := by
  cases committed <;> rfl

@[simp] theorem armAckForArrival_recvHighest :
    (flow.armAckForArrival now committed).recvHighest = flow.recvHighest := by
  cases committed <;> rfl

@[simp] theorem armAckForArrival_seen :
    (flow.armAckForArrival now committed).seen = flow.seen := by
  cases committed <;> rfl

end Frame

end InAssociation

end BcpFlux.Flow
