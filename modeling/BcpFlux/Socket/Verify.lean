import BcpFlux.Socket.ReplayWindow
import BcpFlux.Socket.Session

/-! # Verifying a datagram from a known peer

The secure branch of `PreProcessIn`: open under the session of the peer at the
source address, on the lane the other end sends on, then ask the replay window.
A MAC-only packet is verified instead of decrypted.
-/

namespace BcpFlux.Socket
open Library Wire Crypto

/-- Open a secure packet by the kind its controller names. -/
def openPacket (suite : CipherSuite) (publicKey : Key) (peer : SessionPeer) (d : Datagram) :
    Option (ℕ × Datagram) :=
  if d.isMacOnly then openMacOnlyPacket suite d peer.macKey peer.headerKey
  else openSecurePacket suite d peer.session peer.headerKey (laneFrom publicKey peer.theirPk)

/-- Everything `PreProcessIn` asks of a secure packet from a known address: the plaintext
packet and the advanced window, or nothing. -/
def verify (suite : CipherSuite) (publicKey : Key) (peer : SessionPeer) (window : ReplayWindow)
    (d : Datagram) : Option (Datagram × ReplayWindow) :=
  if !d.isSecure || !peer.established then none
  else
    match openPacket suite publicKey peer d with
    | none => none
    | some (counter, opened) =>
      match window.accept counter with
      | none => none
      | some window => some (opened, window)

end BcpFlux.Socket
