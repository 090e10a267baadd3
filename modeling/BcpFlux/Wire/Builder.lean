import BcpFlux.Wire.Writer

/-! # Building a packet

`PacketBuilder::Begin` and the content stage: the packet as it stands before its
sequence is stamped and before it is sealed.  Nonce and peer tag are reserved as
zeros, and the authentication tag, which the seal appends, is only accounted for.
Header, content and tag together have the room of a fresh writer.
-/

namespace BcpFlux.Wire
open Library

inductive Security where
  | encrypted
  | macOnly
  | unsecured
deriving DecidableEq, Repr

/-- The flow a packet is built for, with the part of a message it carries. -/
structure FlowTarget where
  flowId : ℕ
  mode : Flow.FlowMode
  flowData : UInt8
  part : Flow.FlowPart
deriving DecidableEq, Repr

def commonController (level : Security) (tagged hasFlow : Bool) : UInt8 :=
  (if level = .unsecured then ctrlUnsecure else 0) ||| (if level = .macOnly then ctrlMacOnly else 0)
    ||| (if tagged then ctrlTagged else 0) ||| (if hasFlow then ctrlHasFlow else 0)

def writeCommonHeader (level : Security) (tagged hasFlow : Bool) : List UInt8 :=
  commonController level tagged hasFlow ::
    if level = .unsecured then []
    else List.replicate (wireNonceSize + if tagged then wirePeerTagSize else 0) 0 ++
      [secureChannelApp]

/-- The flow header with the sequence still zero and the framing bits laid over the
generation the handle was opened with. -/
def writeFlowHeader (target : FlowTarget) : List UInt8 :=
  let more := if target.part = .first ∨ target.part = .middle then Flow.flowPartMore else 0
  let cont := if target.part = .middle ∨ target.part = .last then Flow.flowPartCont else 0
  leBytes 2 target.flowId ++ leBytes 4 0 ++ [target.flowData ||| more ||| cont]

def trailerSize (level : Security) : ℕ := if level = .unsecured then 0 else wireTagSize

/-- The header a target is built behind; a flow refuses the unsecured level, and framing
on a mode that cannot carry it. -/
def buildHeader (level : Security) (tagged : Bool) : Option FlowTarget → Option (List UInt8)
  | none => some (writeCommonHeader level (decide (level ≠ .unsecured) && tagged) false)
  | some target =>
    if !Flow.flowPartAllowed target.mode target.part then none
    else if level = .unsecured then none
    else some (writeCommonHeader level tagged true ++ writeFlowHeader target)

def buildPacket (level : Security) (tagged : Bool) (target : Option FlowTarget)
    (content : List UInt8) : Option Datagram :=
  match buildHeader level tagged target with
  | none => none
  | some header =>
    if header.length + content.length + trailerSize level ≤ writerRoom
    then some (header ++ content) else none

/-! ## What is read back from a built packet -/

section Controller
variable (level : Security) (tagged hasFlow : Bool)

@[simp] theorem hasBit_commonController_internal :
    hasBit (commonController level tagged hasFlow) ctrlInternal = false := by
  cases level <;> cases tagged <;> cases hasFlow <;> rfl

@[simp] theorem hasBit_commonController_hasFlow :
    hasBit (commonController level tagged hasFlow) ctrlHasFlow = hasFlow := by
  cases level <;> cases tagged <;> cases hasFlow <;> rfl

@[simp] theorem hasBit_commonController_unsecure :
    hasBit (commonController level tagged hasFlow) ctrlUnsecure = decide (level = .unsecured) := by
  cases level <;> cases tagged <;> cases hasFlow <;> rfl

@[simp] theorem hasBit_commonController_tagged :
    hasBit (commonController level tagged hasFlow) ctrlTagged = tagged := by
  cases level <;> cases tagged <;> cases hasFlow <;> rfl

@[simp] theorem hasBit_commonController_macOnly :
    hasBit (commonController level tagged hasFlow) ctrlMacOnly = decide (level = .macOnly) := by
  cases level <;> cases tagged <;> cases hasFlow <;> rfl

@[simp] theorem hasBit_commonController_batch :
    hasBit (commonController level tagged hasFlow) ctrlBatch = false := by
  cases level <;> cases tagged <;> cases hasFlow <;> rfl

end Controller

def builtController (level : Security) (tagged : Bool) (target : Option FlowTarget) : UInt8 :=
  commonController level (decide (target.isSome ∨ level ≠ .unsecured) && tagged) target.isSome

theorem buildHeader_cases {level : Security} {tagged : Bool} {target : Option FlowTarget}
    {header : List UInt8} (h : buildHeader level tagged target = some header) :
    (target.isSome = true → level ≠ .unsecured) ∧
      ∃ rest, header = builtController level tagged target :: rest ∧
        ∀ content : List UInt8,
          Datagram.contentOffset (header ++ content) = header.length := by
  cases target with
  | none =>
    cases h
    refine ⟨fun hsome => by simp at hsome, _, by simp [writeCommonHeader, builtController]; rfl, ?_⟩
    intro content
    cases level <;> cases tagged <;>
      simp [writeCommonHeader, Datagram.contentOffset, Datagram.headSize, Datagram.isSecure,
        Datagram.isTagged, Datagram.hasFlow, Datagram.isValid, Datagram.controller,
        wireNonceSize, wirePeerTagSize, wireSecureChannelSize]
  | some target =>
    simp only [buildHeader] at h
    split at h
    · cases h
    · split at h
      · cases h
      · case isFalse hlevel =>
        cases h
        refine ⟨fun _ => hlevel, _, by simp [writeCommonHeader, builtController]; rfl, ?_⟩
        intro content
        cases tagged <;>
          simp [writeCommonHeader, writeFlowHeader, Datagram.contentOffset, Datagram.headSize,
            Datagram.isSecure, Datagram.isTagged, Datagram.hasFlow, Datagram.isValid,
            Datagram.controller, hlevel, wireNonceSize, wirePeerTagSize, wireSecureChannelSize,
            wireFlowHeaderSize]

/-- What `buildPacket` hands on: the controller says the level and whether a flow header
follows, and behind the headers stands the content. -/
structure Built (level : Security) (target : Option FlowTarget) (content : List UInt8)
    (d : Datagram) : Prop where
  secure_eq : d.isSecure = decide (level ≠ .unsecured)
  macOnly_eq : d.isMacOnly = decide (level = .macOnly)
  hasFlow_eq : d.hasFlow = target.isSome
  internal_eq : d.isInternal = false
  batch_eq : d.isBatch = false
  content_eq : d.drop d.contentOffset = content
  length_eq : d.length = d.contentOffset + content.length
  flow_secure : target.isSome = true → level ≠ .unsecured
  size_le : d.length + trailerSize level ≤ writerRoom

theorem buildPacket_built {level : Security} {tagged : Bool} {target : Option FlowTarget}
    {content : List UInt8} {d : Datagram} (h : buildPacket level tagged target content = some d) :
    Built level target content d := by
  rw [buildPacket] at h
  split at h
  · cases h
  · next header hheader =>
    split at h
    case isFalse => cases h
    case isTrue hsize =>
      cases h
      obtain ⟨hsecure, rest, rfl, hoffset⟩ := buildHeader_cases hheader
      refine ⟨?_, ?_, ?_, ?_, ?_, ?_, ?_, hsecure, ?_⟩
      · simp [Datagram.isSecure, Datagram.isValid, Datagram.controller, builtController]
      · cases level <;>
          simp [Datagram.isMacOnly, Datagram.isSecure, Datagram.isValid, Datagram.controller,
            builtController]
      · simp [Datagram.hasFlow, Datagram.isValid, Datagram.controller, builtController]
      · simp [Datagram.isInternal, Datagram.isValid, Datagram.controller, builtController]
      · simp [Datagram.isBatch, Datagram.isValid, Datagram.controller, builtController]
      · rw [hoffset]
        exact List.drop_left' rfl
      · rw [hoffset, List.length_append]
      · rwa [List.length_append]

end BcpFlux.Wire
