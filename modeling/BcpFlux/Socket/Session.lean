import BcpFlux.Crypto.Seal

/-! # One end of a session

The fields of `Peer` that sealing and opening read, the lane rule that splits the
nonce space between the two ends, and the two places that hand out nonce counters:
`GatherSendMaterials`, and the loops that copy one gathered set and bump the counter
themselves.
-/

namespace BcpFlux.Socket
open Library Wire Crypto

structure SessionPeer where
  /-- `IsValid`: the handshake state is `ESTABLISHED`. -/
  established : Bool
  theirPk : Key
  session : Key
  headerKey : Key
  macKey : Key
  sendCounter : ℕ
  myTag : PeerTag

def zeroKey : Key := List.replicate 32 0

def zeroTag : PeerTag := ⟨[0, 0, 0, 0], rfl⟩

/-- The entry `RegisterPeer` writes: unproven, with nothing to seal under. -/
def SessionPeer.blank : SessionPeer :=
  ⟨false, zeroKey, zeroKey, zeroKey, zeroKey, 0, zeroTag⟩

/-! ## Lanes -/

def laneTo (publicKey theirPk : Key) : UInt8 := if bytesLt publicKey theirPk then 0 else 1

def laneFrom (publicKey theirPk : Key) : UInt8 := if laneTo publicKey theirPk = 0 then 1 else 0

theorem laneTo_ne {pk pk' : Key} (hlen : pk.length = pk'.length) (hne : pk ≠ pk') :
    laneTo pk pk' ≠ laneTo pk' pk := by
  simp only [laneTo, bytesLt_swap pk pk' hlen hne]
  cases bytesLt pk pk' <;> decide

theorem laneTo_ne_laneFrom (pk pk' : Key) : laneTo pk pk' ≠ laneFrom pk pk' := by
  by_cases h : bytesLt pk pk' = true <;> simp [laneFrom, laneTo, h]

/-! ## Committing a session -/

/-- `'B','C','P','-','P','T','A','G'`, the lane, the step, the attempt. -/
def peerTagMessage (lane : UInt8) (step : ℕ) (attempt : UInt8) : List UInt8 :=
  [66, 67, 80, 45, 80, 84, 65, 71] ++ lane :: (leBytes 4 step ++ [attempt])

/-- The loop of `DerivePeerTag` with `left` attempts still to make. -/
def derivePeerTagFrom (suite : CipherSuite) (session : Key) (lane : UInt8) (step : ℕ) :
    ℕ → ℕ → PeerTag
  | attempt, left =>
    let mac := suite.computeMac session (peerTagMessage lane step (UInt8.ofNat attempt))
    let tag : PeerTag := ⟨mac.take wirePeerTagSize, by simp [mac, suite.mac_length]; decide⟩
    match left with
    | 0 => tag
    | left + 1 =>
      if tag.bytes ≠ zeroTag.bytes then tag
      else derivePeerTagFrom suite session lane step (attempt + 1) left

def derivePeerTag (suite : CipherSuite) (session : Key) (lane : UInt8) (step : ℕ) : PeerTag :=
  derivePeerTagFrom suite session lane step 0 255

/-- `"flux-hdr-mask"` padded to 16 bytes. -/
def headerKeyLabel : List UInt8 := [102, 108, 117, 120, 45, 104, 100, 114, 45, 109, 97, 115, 107, 0, 0, 0]

/-- `"flux-mac-only"` padded to 16 bytes. -/
def macKeyLabel : List UInt8 := [102, 108, 117, 120, 45, 109, 97, 99, 45, 111, 110, 108, 121, 0, 0, 0]

/-- `CommitSession` once `DeriveSessionInto` has produced the session key. -/
def commitSession (suite : CipherSuite) (publicKey theirPk session : Key) : SessionPeer where
  established := true
  theirPk := theirPk
  session := session
  headerKey := suite.deriveSubKey session headerKeyLabel
  macKey := suite.deriveSubKey session macKeyLabel
  sendCounter := 0
  myTag := derivePeerTag suite session (laneTo publicKey theirPk) 0

/-! ## Handing out counters -/

/-- `++peer.sendCounter`. -/
def SessionPeer.bump (peer : SessionPeer) : SessionPeer :=
  { peer with sendCounter := (peer.sendCounter + 1) % 2 ^ 64 }

/-- `GatherSendMaterials`. -/
def gatherSendMaterials (publicKey : Key) (peer : SessionPeer) : SessionPeer × PeerSendMaterials :=
  let peer := peer.bump
  (peer, ⟨peer.session, peer.headerKey, peer.macKey, peer.sendCounter,
    laneTo publicKey peer.theirPk, peer.myTag⟩)

/-- Copies of one gathered set: the first packet keeps its counter and every further one
bumps the peer's.  `used` says the gathered counter is already taken. -/
def copyMaterials (base : PeerSendMaterials) : Bool → ℕ → SessionPeer →
    SessionPeer × List PeerSendMaterials
  | _, 0, peer => (peer, [])
  | used, count + 1, peer =>
    let peer := if used then peer.bump else peer
    let counter := if used then peer.sendCounter else base.counter
    let rest := copyMaterials base true count peer
    (rest.1, { base with counter := counter } :: rest.2)

/-- The gather of `UpdateOutFlow`: nothing is taken when nothing is resent. -/
def resendMaterials (publicKey : Key) (peer : SessionPeer) (resendN : ℕ) :
    SessionPeer × List PeerSendMaterials :=
  if resendN = 0 then (peer, [])
  else
    let base := gatherSendMaterials publicKey peer
    copyMaterials base.2 false resendN base.1

/-- The gather of `TransferPass`: taken before the pass knows whether anything is due. -/
def transferMaterials (publicKey : Key) (peer : SessionPeer) (queuedCount : ℕ) :
    SessionPeer × List PeerSendMaterials :=
  let base := gatherSendMaterials publicKey peer
  copyMaterials base.2 false queuedCount base.1

/-! ## The two seals -/

inductive SealKind where
  | encrypted
  | macOnly
deriving DecidableEq, Repr

/-- A packet as one of the two seals leaves it.  The kind is not read off the controller:
the drain of an unreliable flow encrypts a packet whose controller says MAC-only. -/
def sealAs (suite : CipherSuite) (kind : SealKind) (controller : UInt8) (body : List UInt8)
    (m : PeerSendMaterials) : Datagram :=
  match kind with
  | .encrypted => sealSecurePacket suite controller body m
  | .macOnly => sealMacOnlyPacket suite controller body m

end BcpFlux.Socket
