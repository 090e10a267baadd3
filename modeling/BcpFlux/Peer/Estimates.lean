import BcpFlux.Peer.Budget
import BcpFlux.Peer.Curve

/-! # What the controller knows about the path

The measurements of `rtt.h` and `delivery.h`: the smoothed round trip, the lowest one still
remembered, and what arrived and what was lost in recent spans of time.  Both memories are
rows of buckets, newest first, that age by whole spans.
-/

namespace BcpFlux.Peer
open Library Wire

def minRttBuckets : ℕ := 3
def minRttBucketMicros : ℕ := 4000000
def deliveryBuckets : ℕ := 4
def deliveryBucketMicros : ℕ := 250000
def ccOverflowGatePercent : ℕ := 75
def queueTargetDivisor : ℕ := 8
def queueTargetMinMicros : ℕ := 1000

/-- Age a row of buckets by some spans: as many fall out at the old end. -/
def retire {α : Type*} (empty : α) : ℕ → List α → List α
  | 0, buckets => buckets
  | spans + 1, buckets => retire empty spans (empty :: buckets.dropLast)

/-- How many whole spans the loop of a rotation retires. -/
def spansSince (span rotatedAt now : ℕ) : ℕ := (now - rotatedAt) / span

/-! ## The round trip -/

/-- The fold of one measurement into the averages, in the arithmetic of the source. -/
def RttEstimate.fold (rtt : RttEstimate) (sample held : ℕ) : RttEstimate :=
  let rtt := { rtt with latestMicros := sample }
  let rtt :=
    if rtt.srttMicros = 0 then { rtt with srttMicros := sample, rttvarMicros := sample / 2 }
    else
      let diff := if sample < rtt.srttMicros then rtt.srttMicros - sample
        else sample - rtt.srttMicros
      { rtt with
        rttvarMicros := u32 (rtt.rttvarMicros * 3 + diff) / 4
        srttMicros := u32 (rtt.srttMicros * 7 + sample) / 8 }
  { rtt with
    peerAckDelayMicros := if rtt.peerAckDelayMicros < held then held
      else u32 (rtt.peerAckDelayMicros * 7 + held) / 8 }

def RttEstimate.markAcked (rtt : RttEstimate) (now : ℕ) : RttEstimate :=
  { rtt with lastAckedAtMicros := now }

/-- The windowed minimum of the round trip; an empty bucket holds zero. -/
structure MinRtt where
  buckets : List ℕ
  rotatedAt : ℕ
deriving DecidableEq, Repr

namespace MinRtt

def reset : MinRtt := ⟨List.replicate minRttBuckets 0, 0⟩

/-- `MinRttMicros`. -/
def lowest (m : MinRtt) : ℕ :=
  m.buckets.foldl
    (fun lowest bucket => if bucket ≠ 0 ∧ (lowest = 0 ∨ bucket < lowest) then bucket else lowest) 0

/-- Rotate, then let the newest bucket take the sample. -/
def note (m : MinRtt) (sample now : ℕ) : MinRtt :=
  let rotatedAt := if m.rotatedAt = 0 then now else m.rotatedAt
  let spans := spansSince minRttBucketMicros rotatedAt now
  let buckets := retire 0 spans m.buckets
  let newest := buckets.headD 0
  ⟨(if newest = 0 ∨ sample < newest then sample else newest) :: buckets.tail,
    rotatedAt + spans * minRttBucketMicros⟩

end MinRtt

/-- How much of a round trip is above the lowest one remembered. -/
def queueAbove (lowest micros : ℕ) : ℕ :=
  if lowest = 0 ∨ micros ≤ lowest then 0 else micros - lowest

/-- `QueueTargetMicros`. -/
def queueTargetMicros (minRtt : ℕ) : ℕ := max (minRtt / queueTargetDivisor) queueTargetMinMicros

/-! ## Delivery -/

/-- `DeliveryEstimate`: acknowledged and lost bytes per span, newest first. -/
structure DeliveryEstimate where
  /-- Bytes that arrived and bytes declared lost. -/
  buckets : List (ℕ × ℕ)
  rotatedAt : ℕ
  everComplete : Bool
deriving DecidableEq, Repr

namespace DeliveryEstimate

def reset : DeliveryEstimate := ⟨List.replicate deliveryBuckets (0, 0), 0, false⟩

def sample (d : DeliveryEstimate) (ackedBytes lostDeclaredBytes now : ℕ) : DeliveryEstimate :=
  let rotatedAt := if d.rotatedAt = 0 then now else d.rotatedAt
  let spans := spansSince deliveryBucketMicros rotatedAt now
  let buckets := retire (0, 0) spans d.buckets
  let newest := buckets.headD (0, 0)
  ⟨(min (newest.1 + ackedBytes) uint32Max, min (newest.2 + lostDeclaredBytes) uint32Max) ::
      buckets.tail,
    rotatedAt + spans * deliveryBucketMicros, d.everComplete || decide (spans ≠ 0)⟩

/-- `LossPercent`, over the spans that are complete. -/
def lossPercent (d : DeliveryEstimate) : ℕ :=
  let delivered := (d.buckets.tail.map Prod.fst).sum
  let lost := (d.buckets.tail.map Prod.snd).sum
  if d.everComplete = false ∨ delivered + lost = 0 then 0 else lost * 100 / (delivered + lost)

def peakBytesPerBucket (d : DeliveryEstimate) : ℕ :=
  if d.everComplete then (d.buckets.tail.map Prod.fst).foldl max 0 else 0

/-- `PathBytes`; zero is unknown. -/
def pathBytes (d : DeliveryEstimate) (minRtt : ℕ) : ℕ :=
  d.peakBytesPerBucket * minRtt / deliveryBucketMicros

def couldOverflow (d : DeliveryEstimate) (minRtt inFlightBytes : ℕ) : Bool :=
  decide (d.pathBytes minRtt = 0) ||
    decide (d.pathBytes minRtt * ccOverflowGatePercent ≤ inFlightBytes * 100)

end DeliveryEstimate

/-- `RenoWindow`: where a straight line would have reached in the same time. -/
def renoWindow (wMaxBytes elapsedMicros srtt : ℕ) : ℕ :=
  if srtt = 0 then 0
  else
    let retained := wMaxBytes * ccLossRetainPercent / 100
    let perRound := maxWirePacketSize * 3 * (100 - ccLossRetainPercent) / (100 + ccLossRetainPercent)
    u64 (retained + elapsedMicros / srtt * perRound)

end BcpFlux.Peer
