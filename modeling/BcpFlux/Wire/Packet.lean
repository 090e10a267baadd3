import BcpFlux.Flow.Mode
import BcpFlux.Library.Bytes

/-! # The wire packet

A datagram as the list of its bytes, the controller bits, and the field accessors
of `packet_slot.cpp`.  Every accessor is total: on a packet too short for the
field it answers what the source answers.
-/

namespace BcpFlux.Wire
open Library

abbrev Datagram := List UInt8

def maxWirePacketSize : ℕ := 1200
def wireTagSize : ℕ := 16
def wireNonceSize : ℕ := 8
def wirePeerTagSize : ℕ := 4
def wireFlowHeaderSize : ℕ := 7
def wireSecureHeadSize : ℕ := 9
def wireSecureChannelSize : ℕ := 1
def wireBatchLenSize : ℕ := 2

def ctrlInternal : UInt8 := 0x01
def ctrlHasFlow : UInt8 := 0x02
def ctrlUnsecure : UInt8 := 0x04
def ctrlTagged : UInt8 := 0x08
def ctrlMacOnly : UInt8 := 0x10
def ctrlBatch : UInt8 := 0x20

def secureChannelApp : UInt8 := 0

def hasBit (controller bit : UInt8) : Bool := controller &&& bit != 0

namespace Datagram

def controller (d : Datagram) : UInt8 := d.headD 0

def isValid (d : Datagram) : Bool := decide (1 ≤ d.length)

def isInternal (d : Datagram) : Bool := isValid d && hasBit d.controller ctrlInternal

def isSecure (d : Datagram) : Bool := isValid d && !hasBit d.controller ctrlUnsecure

def isMacOnly (d : Datagram) : Bool := isSecure d && hasBit d.controller ctrlMacOnly

def isBatch (d : Datagram) : Bool := isValid d && hasBit d.controller ctrlBatch

def hasFlow (d : Datagram) : Bool := isValid d && hasBit d.controller ctrlHasFlow

def isTagged (d : Datagram) : Bool := isSecure d && hasBit d.controller ctrlTagged

/-- Bytes in front of the channel byte of a secure packet, and of the content or flow
header of a plain one. -/
def headSize (d : Datagram) : ℕ :=
  1 + (if isSecure d then wireNonceSize else 0) + (if isTagged d then wirePeerTagSize else 0)

/-- Where the flow header starts; the packet's size when it has none. -/
def flowHeaderOffset (d : Datagram) : ℕ :=
  if !hasFlow d then d.length
  else
    let offset := headSize d + (if isSecure d then wireSecureChannelSize else 0)
    if offset + wireFlowHeaderSize ≤ d.length then offset else d.length

def flowId (d : Datagram) : ℕ :=
  let offset := flowHeaderOffset d
  if offset = d.length then Flow.invalidFlowId else ofLeBytes ((d.drop offset).take 2)

def flowSeq (d : Datagram) : ℕ :=
  let offset := flowHeaderOffset d
  if offset = d.length then 0 else ofLeBytes ((d.drop (offset + 2)).take 4)

def flowData (d : Datagram) : UInt8 :=
  let offset := flowHeaderOffset d
  if offset = d.length then 0 else (d.drop (offset + 6)).headD 0

def secureChannel (d : Datagram) : UInt8 :=
  if !isSecure d then secureChannelApp
  else if headSize d + wireSecureChannelSize ≤ d.length then (d.drop (headSize d)).headD 0
  else secureChannelApp

def contentOffset (d : Datagram) : ℕ :=
  headSize d + (if isSecure d then wireSecureChannelSize else 0) +
    (if hasFlow d then wireFlowHeaderSize else 0)

/-- The authentication tag of a secure packet sits behind its content. -/
def contentLength (d : Datagram) : ℕ :=
  d.length - (contentOffset d + if isSecure d then wireTagSize else 0)

def content (d : Datagram) : List UInt8 := (d.drop (contentOffset d)).take (contentLength d)

end Datagram

end BcpFlux.Wire
