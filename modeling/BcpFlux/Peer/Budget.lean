import BcpFlux.Basic

/-! # Round-trip deadlines and the send budget of a peer

`RttEstimate` as the deadlines read it, and the fields of `Peer` the send gate
spends: congestion budget, receive grant and pacing allowance.
-/

namespace BcpFlux.Peer

def rtoVarianceMinMicros : ℕ := 1000
def rtoMarginDivisor : ℕ := 8
def rtoMaxMicros : ℕ := 60000000
def rtoMaxBackoffShift : ℕ := 3
def ccPacingGainPercent : ℕ := 125
def ccPacingBurstBytes : ℕ := 2 * 1200

structure RttEstimate where
  srttMicros : ℕ
  rttvarMicros : ℕ
  peerAckDelayMicros : ℕ
  latestMicros : ℕ
  lastAckedAtMicros : ℕ
deriving DecidableEq, Repr

namespace RttEstimate

def silentForMicros (rtt : RttEstimate) (now : ℕ) : ℕ :=
  if rtt.lastAckedAtMicros = 0 ∨ now ≤ rtt.lastAckedAtMicros then 0
  else now - rtt.lastAckedAtMicros

def roundTripOr (rtt : RttEstimate) (fallback : ℕ) : ℕ :=
  if rtt.srttMicros ≠ 0 then rtt.srttMicros else fallback

/-- One doubling per whole timeout of silence, at most `shifts` of them. -/
def backOff (silent : ℕ) : ℕ → ℕ → ℕ
  | 0, rto => rto
  | shifts + 1, rto => if rto < silent then backOff silent shifts (2 * rto) else rto

def retransmitTimeout (rtt : RttEstimate) (fallback ackCadence now : ℕ) : ℕ :=
  let spread := rtt.roundTripOr fallback / rtoMarginDivisor
  let variance := max (max (4 * rtt.rttvarMicros) rtoVarianceMinMicros) spread
  let hold := max ackCadence rtt.peerAckDelayMicros
  let rto := rtt.roundTripOr fallback + variance + hold
  let rto := backOff (rtt.silentForMicros now) rtoMaxBackoffShift rto
  if rto < 1000 then 1000 else min rto rtoMaxMicros

/-- The timeout a path has earned, with no backoff: the default argument of
`RetransmitTimeout`. -/
def baseTimeout (rtt : RttEstimate) (fallback ackCadence : ℕ) : ℕ :=
  rtt.retransmitTimeout fallback ackCadence 0

def lossDelayMicros (rtt : RttEstimate) (fallback : ℕ) : ℕ :=
  let base := max rtt.latestMicros rtt.srttMicros
  let base := if base = 0 then fallback else base
  max (base + base / 8) rtoVarianceMinMicros

end RttEstimate

/-- What the send gate reads and spends on a peer. -/
structure PeerBudget where
  rtt : RttEstimate
  congestionBudget : ℕ
  bytesInFlight : ℕ
  theirGrant : ℕ
  outstandingToPeer : ℕ
  congestionEpoch : ℕ
  pacingTokens : ℕ
  pacingRefilledAt : ℕ
deriving DecidableEq, Repr

namespace PeerBudget

def refillPacing (peer : PeerBudget) (now : ℕ) : PeerBudget :=
  if peer.rtt.srttMicros = 0 then peer
  else if peer.pacingRefilledAt = 0 ∨ now < peer.pacingRefilledAt then
    { peer with pacingRefilledAt := now }
  else
    let gained := peer.congestionBudget * ccPacingGainPercent * (now - peer.pacingRefilledAt) %
      2 ^ 64 / (100 * peer.rtt.srttMicros)
    -- nothing gained keeps the remainder of the interval for the next look
    if now - peer.pacingRefilledAt = 0 ∨ gained = 0 then peer
    else { peer with
      pacingTokens := min (peer.pacingTokens + gained) ccPacingBurstBytes
      pacingRefilledAt := now }

/-- Whether the clock lets this many bytes out now; asking tops the allowance up. -/
def pacingAllows (peer : PeerBudget) (now wireSize : ℕ) : PeerBudget × Bool :=
  if peer.rtt.srttMicros = 0 then (peer, true)
  else
    let peer := peer.refillPacing now
    (peer, decide (wireSize ≤ peer.pacingTokens))

def spendPacing (peer : PeerBudget) (wireSize : ℕ) : PeerBudget :=
  { peer with pacingTokens := peer.pacingTokens - wireSize }

end PeerBudget

end BcpFlux.Peer
