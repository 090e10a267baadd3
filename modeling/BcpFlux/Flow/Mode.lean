import Mathlib.Data.Nat.Notation

/-! # Flow modes, the flow data byte and generation order

The pure part of `flow.h`.  A flow packet carries one byte with the mode, the
three-bit generation (epoch) and the two framing bits; both ends derive the
window from the mode alone.
-/

namespace BcpFlux.Flow

/-- Packets in flight for every mode but bulk. -/
def flowWindow : ℕ := 256

def flowWindowBulk : ℕ := 1024

inductive FlowMode where
  | reliableOrdered
  | reliableUnordered
  | unreliable
  | reliableOrderedBulk
deriving DecidableEq, Repr

def isOrdered (mode : FlowMode) : Bool :=
  mode == .reliableOrdered || mode == .reliableOrderedBulk

def isReliable (mode : FlowMode) : Bool := mode != .unreliable

def windowFor (mode : FlowMode) : ℕ :=
  if mode = .reliableOrderedBulk then flowWindowBulk else flowWindow

def reorderCapFor (mode : FlowMode) : ℕ := if isOrdered mode then windowFor mode else 0

inductive FlowLifecycle where
  | opened
  | closing
  | closed
  | failed
deriving DecidableEq, Repr

inductive FlowPart where
  | whole
  | first
  | middle
  | last
deriving DecidableEq, Repr

def invalidFlowId : ℕ := 0xFFFF

def flowEpochMask : UInt8 := 7
def flowPartMore : UInt8 := 0x40
def flowPartCont : UInt8 := 0x80

def flowPartAllowed (mode : FlowMode) (part : FlowPart) : Bool :=
  part == .whole || isOrdered mode

def FlowMode.toByte : FlowMode → UInt8
  | .reliableOrdered => 0
  | .reliableUnordered => 1
  | .unreliable => 2
  | .reliableOrderedBulk => 3

def FlowMode.ofByte? : UInt8 → Option FlowMode
  | 0 => some .reliableOrdered
  | 1 => some .reliableUnordered
  | 2 => some .unreliable
  | 3 => some .reliableOrderedBulk
  | _ => none

def encodeFlowData (mode : FlowMode) (epoch : UInt8) (part : FlowPart) : Option UInt8 :=
  if epoch > flowEpochMask then none
  else if !flowPartAllowed mode part then none
  else
    let more := if part = .first ∨ part = .middle then flowPartMore else 0
    let cont := if part = .middle ∨ part = .last then flowPartCont else 0
    some (mode.toByte ||| (epoch <<< 3) ||| (more ||| cont))

def flowDataPart (data : UInt8) : FlowPart :=
  let more := data &&& flowPartMore != 0
  let cont := data &&& flowPartCont != 0
  if !cont then (if more then .first else .whole) else (if more then .middle else .last)

def flowDataEpoch (data : UInt8) : UInt8 := (data >>> 3) &&& flowEpochMask

def decodeFlowData (data : UInt8) : Option (FlowMode × UInt8 × FlowPart) :=
  match FlowMode.ofByte? (data &&& 0x07) with
  | none => none
  | some mode =>
    if flowPartAllowed mode (flowDataPart data) then
      some (mode, flowDataEpoch data, flowDataPart data)
    else none

inductive FlowEpochOrder where
  | current
  | newer
  | stale
deriving DecidableEq, Repr

/-- Walk forward from the held generation: a short walk is a newer generation, a
long one is the three-bit field having come round. -/
def compareFlowEpoch (held seen : UInt8) : FlowEpochOrder :=
  let forward := (seen - held) &&& flowEpochMask
  if forward = 0 then .current else if forward < 4 then .newer else .stale

theorem reorderCapFor_unordered {mode : FlowMode} (h : isOrdered mode = false) :
    reorderCapFor mode = 0 := by
  simp [reorderCapFor, h]

set_option maxRecDepth 4000 in
theorem decode_encodeFlowData (mode : FlowMode) (epoch : UInt8) (part : FlowPart) :
    ∀ data ∈ encodeFlowData mode epoch part,
      decodeFlowData data = some (mode, epoch, part) := by
  by_cases hlt : epoch > flowEpochMask
  · simp [encodeFlowData, hlt]
  · have hle : epoch.toNat < 8 := by
      have := UInt8.not_lt.mp hlt
      rw [UInt8.le_iff_toNat_le] at this
      exact Nat.lt_succ_of_le this
    obtain ⟨e, rfl⟩ : ∃ e : Fin 8, epoch = UInt8.ofNat e :=
      ⟨⟨epoch.toNat, hle⟩, by simp⟩
    clear hlt hle
    cases mode <;> cases part <;> revert e <;> decide

end BcpFlux.Flow
