import BcpFlux.Wire.Packet

/-! # The packet writer

`PacketSlotWriter` over a slot of a packet pool.  The pools of wire packets and of
retained bodies share one stride, the largest datagram behind a `PacketSlot` header
rounded up to sixteen bytes, and the writer's room is what the stride leaves behind the
header: more than the largest datagram, by the rounding.
-/

namespace BcpFlux.Wire

/-- `sizeof(PacketSlot)`: an address of 128 bytes and the two-byte length, padded to the
address's alignment of eight. -/
def packetSlotSize : ℕ := 136

def alignUp16 (n : ℕ) : ℕ := (n + 15) / 16 * 16

def packetStride : ℕ := alignUp16 (packetSlotSize + maxWirePacketSize)

def writerRoom : ℕ := packetStride - packetSlotSize

structure PacketSlotWriter where
  data : List UInt8
  room : ℕ
deriving DecidableEq, Repr

namespace PacketSlotWriter

def fresh : PacketSlotWriter := ⟨[], writerRoom⟩

def putBytes (w : PacketSlotWriter) (bytes : List UInt8) : Option PacketSlotWriter :=
  if bytes.length ≤ w.room then some ⟨w.data ++ bytes, w.room - bytes.length⟩ else none

/-- `PutU8` by a caller that does not look at the answer. -/
def putU8 (w : PacketSlotWriter) (byte : UInt8) : PacketSlotWriter :=
  (w.putBytes [byte]).getD w

/-- Nonce and peer tag are written as zeros; the authentication tag only costs room. -/
def reserveSecureHeader (w : PacketSlotWriter) (tagged : Bool) : Option PacketSlotWriter :=
  let reserved := wireNonceSize + if tagged then wirePeerTagSize else 0
  if w.room < reserved + wireTagSize then none
  else some ⟨w.data ++ List.replicate reserved 0, w.room - wireTagSize - reserved⟩

end PacketSlotWriter

/-- The kernel's own limit, applied to the finished datagram. -/
def kernelAccepts (d : Datagram) : Prop := d.length ≤ maxWirePacketSize

instance (d : Datagram) : Decidable (kernelAccepts d) :=
  inferInstanceAs (Decidable (d.length ≤ maxWirePacketSize))

end BcpFlux.Wire
