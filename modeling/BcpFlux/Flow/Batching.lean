import BcpFlux.Wire.Batch

/-! # The open batch of a sending association

`flow_batching.cpp`: what may join the batch, taking a copy of it for a flush, and
settling the flush.  The buffer holds the used bytes, so `openBatchUsed` is its
length.
-/

namespace BcpFlux.Flow
open Library Wire

structure OpenBatch where
  buffer : List UInt8
  header : ℕ
  count : ℕ
  firstLen : ℕ
  /-- A flush holds a copy and has not said whether it left. -/
  inFlight : Bool
deriving DecidableEq, Repr

inductive BatchAdmit where
  | appended
  | sealed
  | rejected
deriving DecidableEq, Repr

namespace OpenBatch

def empty : OpenBatch := ⟨[], 0, 0, 0, false⟩

/-- The list layout begins behind the header of the packet that opened the batch. -/
def cursor (batch : OpenBatch) (limit : ℕ) : BatchCursor where
  content := batch.buffer.drop batch.header
  count := batch.count
  firstLen := batch.firstLen
  capacity := limit - batch.header

/-- `buffer[0] |= WIRE_CTRL_BATCH`. -/
def markBatch : List UInt8 → List UInt8
  | [] => []
  | controller :: rest => (controller ||| ctrlBatch) :: rest

/-- The bytes a batch may reach once the room of the seal's trailer is set aside. -/
def appendLimit (packet : Datagram) (limit : ℕ) : ℕ :=
  min limit maxWirePacketSize - (if packet.isSecure then wireTagSize else 0)

/-- Nothing is open: the packet's own framing becomes the batch's. -/
def openWith (batch : OpenBatch) (packet : Datagram) (limit : ℕ) : BatchAdmit × OpenBatch :=
  if appendLimit packet limit < packet.length then (.rejected, batch)
  else (.appended,
    { batch with
      buffer := packet
      header := packet.contentOffset
      count := 1
      firstLen := packet.length - packet.contentOffset })

/-- A batch is open: the packet's content joins it, under the header already there. -/
def extendWith (batch : OpenBatch) (packet : Datagram) (limit : ℕ) : BatchAdmit × OpenBatch :=
  match batchAppend (batch.cursor (appendLimit packet limit))
      (packet.drop packet.contentOffset) with
  | none => (.sealed, batch)
  | some cursor => (.appended,
    { batch with
      buffer := markBatch (batch.buffer.take batch.header) ++ cursor.content
      count := cursor.count })

def appendToBatch (batch : OpenBatch) (packet : Datagram) (limit : ℕ) : BatchAdmit × OpenBatch :=
  let header := packet.contentOffset
  if packet.length ≤ header ∨ 2 ^ 16 ≤ packet.length - header then (.rejected, batch)
  else if appendLimit packet limit = 0 then (.rejected, batch)
  else if batch.inFlight then (.rejected, batch)
  else if batch.buffer = [] then batch.openWith packet limit
  else batch.extendWith packet limit

/-- The copy a flush carries, if it gets one. -/
def takeBatch (batch : OpenBatch) (capacity : ℕ) : Option Datagram × OpenBatch :=
  if batch.buffer ≠ [] ∧ batch.buffer.length ≤ capacity ∧ batch.inFlight = false then
    (some batch.buffer, { batch with inFlight := true })
  else (none, batch)

def finishBatch (batch : OpenBatch) (expectedUsed : ℕ) (sent : Bool) : OpenBatch :=
  if sent ∧ batch.buffer.length = expectedUsed then empty
  else { batch with inFlight := false }

def peekBatch (batch : OpenBatch) : Bool := decide (batch.buffer ≠ [])

end OpenBatch

/-! ## The header of the packet that opened the batch -/

theorem or_and_distrib (controller set bit : UInt8) :
    (controller ||| set) &&& bit = (controller &&& bit) ||| (set &&& bit) := by
  apply UInt8.eq_of_toBitVec_eq
  ext i
  simp [Bool.and_or_distrib_right]

theorem hasBit_or {set bit : UInt8} (h : set &&& bit = 0) (controller : UInt8) :
    hasBit (controller ||| set) bit = hasBit controller bit := by
  rw [hasBit, or_and_distrib, h, UInt8.or_zero, hasBit]

/-- Two packets whose controllers differ in the batch bit alone. -/
structure SameHeader (d d' : Datagram) : Prop where
  ne_nil : d ≠ []
  ne_nil' : d' ≠ []
  bits : ∀ bit, ctrlBatch &&& bit = 0 →
    hasBit d'.controller bit = hasBit d.controller bit

namespace SameHeader
variable {d d' : Datagram} (h : SameHeader d d')
include h

theorem valid : d.isValid = true ∧ d'.isValid = true := by
  constructor
  · simp [Datagram.isValid, Nat.one_le_iff_ne_zero, h.ne_nil]
  · simp [Datagram.isValid, Nat.one_le_iff_ne_zero, h.ne_nil']

theorem isSecure : d'.isSecure = d.isSecure := by
  simp [Datagram.isSecure, h.valid, h.bits ctrlUnsecure (by decide)]

theorem isTagged : d'.isTagged = d.isTagged := by
  simp [Datagram.isTagged, h.isSecure, h.bits ctrlTagged (by decide)]

theorem hasFlow : d'.hasFlow = d.hasFlow := by
  simp [Datagram.hasFlow, h.valid, h.bits ctrlHasFlow (by decide)]

theorem contentOffset : d'.contentOffset = d.contentOffset := by
  simp [Datagram.contentOffset, Datagram.headSize, h.isSecure, h.isTagged, h.hasFlow]

end SameHeader

theorem sameHeader_extended {d : Datagram} (hne : d ≠ []) {header : ℕ} (hpos : 0 < header)
    (content : List UInt8) :
    SameHeader d (OpenBatch.markBatch (d.take header) ++ content) := by
  cases d with
  | nil => exact absurd rfl hne
  | cons controller rest =>
    cases header with
    | zero => exact absurd hpos (by simp)
    | succ header =>
      refine ⟨hne, by simp [OpenBatch.markBatch], fun bit hbit => ?_⟩
      exact hasBit_or hbit controller

theorem contentOffset_pos (d : Datagram) : 0 < d.contentOffset := by
  simp only [Datagram.contentOffset, Datagram.headSize]
  omega

/-! ## What an append does -/

/-- Refused, opened by this packet, or joined by its content. -/
theorem OpenBatch.appendToBatch_cases (batch : OpenBatch) (packet : Datagram) (limit : ℕ) :
    ((batch.appendToBatch packet limit).1 ≠ .appended ∧
      (batch.appendToBatch packet limit).2 = batch) ∨
    (packet.contentOffset < packet.length ∧ packet.length - packet.contentOffset < 2 ^ 16 ∧
      batch.inFlight = false) ∧
      ((batch.buffer = [] ∧ packet.length ≤ appendLimit packet limit ∧
        batch.appendToBatch packet limit = (.appended,
        { batch with
          buffer := packet
          header := packet.contentOffset
          count := 1
          firstLen := packet.length - packet.contentOffset })) ∨
      (batch.buffer ≠ [] ∧ ∃ cursor,
        batchAppend (batch.cursor (appendLimit packet limit))
          (packet.drop packet.contentOffset) = some cursor ∧
        batch.appendToBatch packet limit = (.appended,
          { batch with
            buffer := markBatch (batch.buffer.take batch.header) ++ cursor.content
            count := cursor.count }))) := by
  unfold appendToBatch
  by_cases hsize : packet.length ≤ packet.contentOffset ∨
      2 ^ 16 ≤ packet.length - packet.contentOffset
  · rw [if_pos hsize]
    exact .inl ⟨by simp, rfl⟩
  rw [if_neg hsize]
  by_cases hlimit : appendLimit packet limit = 0
  · rw [if_pos hlimit]
    exact .inl ⟨by simp, rfl⟩
  rw [if_neg hlimit]
  by_cases hflight : batch.inFlight = true
  · rw [if_pos hflight]
    exact .inl ⟨by simp, rfl⟩
  rw [if_neg hflight]
  have hbounds : packet.contentOffset < packet.length ∧
      packet.length - packet.contentOffset < 2 ^ 16 ∧ batch.inFlight = false :=
    ⟨by omega, by omega, by simpa using hflight⟩
  by_cases hopen : batch.buffer = []
  · rw [if_pos hopen]
    unfold openWith
    split
    · exact .inl ⟨by simp, rfl⟩
    · next hfits => exact .inr ⟨hbounds, .inl ⟨hopen, Nat.le_of_not_lt hfits, rfl⟩⟩
  · rw [if_neg hopen]
    unfold extendWith
    split
    · exact .inl ⟨by simp, rfl⟩
    · next cursor hcursor => exact .inr ⟨hbounds, .inr ⟨hopen, cursor, hcursor, rfl⟩⟩

def messagesOf (d : Datagram) : List (List UInt8) :=
  let content := d.drop d.contentOffset
  if d.isBatch then batchMessages content content.length 0 else [content]

end BcpFlux.Flow
