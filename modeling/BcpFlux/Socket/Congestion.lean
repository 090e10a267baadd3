import BcpFlux.Peer.Estimates
import BcpFlux.Socket.Accounts

/-! # The congestion controller

`ApplyCongestion` in the order of the source: the bytes that resolved are freed, the
measurements are folded in, the starvation verdict is taken, a probe into silence collapses the
budget, a loss trims it, and only an acknowledgement that does none of this lets it grow.
-/

namespace BcpFlux.Socket
open Library Wire Peer BcpFlux.Flow BcpFlux.Transfer

def ccNoiseRetainPercent : ℕ := 95
def ccLossTolerancePercent : ℕ := 2
def ccSlowStartConfirmRounds : ℕ := 2
def ccStarvedBudgetBytes : ℕ := ccInitialWindowBytes
def ccStarvedConfirmRounds : ℕ := 16
def ccStarvedConfirmMinMicros : ℕ := 250000
def ccStarvedExitRounds : ℕ := 8
def ccStarvedExitMinMicros : ℕ := 500000
def ccStarvedReentryWindowMicros : ℕ := 30000000
def ccStarvedCapSlackDivisor : ℕ := 2
def ccMinBudgetDefault : ℕ := 2 * maxWirePacketSize
def persistentCongestionProbes : ℕ := 3

/-! ## Configuration -/

/-- The part of `Config` the bounds of the budget come from. -/
structure FlowConfig where
  outCount : ℕ
  inCount : ℕ
  maxOutPerPeer : ℕ
  minCongestionBudget : ℕ
deriving DecidableEq, Repr

structure Limits where
  minCongestionBudget : ℕ
  maxCongestionBudget : ℕ
  retryIntervalMicros : ℕ
  ackDelayMicros : ℕ
  /-- What the compiled code reads where the product of the growth curve leaves its word. -/
  undefinedWindow : ℕ
deriving DecidableEq, Repr

/-- The bounds `InitFlows` derives; without flows both keep their initial values. -/
def initFlows (config : FlowConfig) (retryInterval ackDelay undefinedWindow : ℕ) : Limits :=
  if config.outCount = 0 ∧ config.inCount = 0 then
    ⟨ccMinBudgetDefault, uint32Max, retryInterval, ackDelay, undefinedWindow⟩
  else
    let least := if config.minCongestionBudget ≠ 0 then config.minCongestionBudget
      else ccMinBudgetDefault
    let ceiling := config.maxOutPerPeer * flowWindowBulk * maxWirePacketSize
    let most := if ceiling = 0 then ccInitialWindowBytes
      else if uint32Max < ceiling then uint32Max else ceiling
    ⟨if least < maxWirePacketSize then maxWirePacketSize else least, most, retryInterval, ackDelay,
      undefinedWindow⟩

/-! ## State -/

/-- The fields of `Peer` the controller reads and writes. -/
structure Controller extends PeerBudget where
  minRtt : MinRtt
  delivery : DeliveryEstimate
  slowStartThreshold : ℕ
  slowStartQueueSince : ℕ
  wMaxBytes : ℕ
  /-- When the budget was last reduced. -/
  congestionEpochMicros : ℕ
  starvedCandidateSince : ℕ
  starvedSince : ℕ
  starvedClearSince : ℕ
  starvedExitedAt : ℕ
  starvedQueueCap : ℕ
  starvedMinRtt : ℕ
deriving DecidableEq, Repr

namespace Controller

def registered : Controller where
  toPeerBudget := freshBudget
  minRtt := .reset
  delivery := .reset
  slowStartThreshold := uint32Max
  slowStartQueueSince := 0
  wMaxBytes := 0
  congestionEpochMicros := 0
  starvedCandidateSince := 0
  starvedSince := 0
  starvedClearSince := 0
  starvedExitedAt := 0
  starvedQueueCap := 0
  starvedMinRtt := 0

def queueMicros (c : Controller) : ℕ := queueAbove c.minRtt.lowest c.rtt.srttMicros

def latestQueueMicros (c : Controller) : ℕ := queueAbove c.minRtt.lowest c.rtt.latestMicros

/-- The queue against the minimum frozen at the starvation verdict. -/
def starvedQueueMicros (c : Controller) : ℕ := c.rtt.srttMicros - c.starvedMinRtt

def starvedWorstQueueMicros (c : Controller) : ℕ :=
  max (c.rtt.latestMicros - c.starvedMinRtt) c.starvedQueueMicros

end Controller

/-- A confirmation window in round trips, floored in absolute time. -/
def confirmWindowMicros (roundTrip rounds floor : ℕ) : ℕ := max (rounds * roundTrip) floor

/-- Grow a 32-bit budget, saturating, up to the ceiling. -/
def growBudget (budget step ceiling : ℕ) : ℕ :=
  let grown := u32 (budget + step)
  let grown := if grown < budget then uint32Max else grown
  if ceiling < grown then ceiling else grown

def rampStep (budget ackedBytes ceiling : ℕ) : ℕ :=
  growBudget budget (if ackedBytes = 0 then 1 else ackedBytes) ceiling

/-- `static_cast<int8_t>(a - b) >= 0`. -/
def epochReached (a b : ℕ) : Bool := decide ((a + 256 - b) % 256 < 128)

namespace Controller

/-! ## Measurements -/

def settle (c : Controller) (delta : CongestionDelta) : Controller :=
  { c with toPeerBudget := refund c.toPeerBudget delta.resolved }

/-- The band `RttEstimate::Sample` accepts. -/
def sampleUsable (micros : ℕ) : Bool := decide (micros ≠ 0 ∧ micros ≤ rttSampleMaxMicros)

/-- `RttEstimate::Sample`; the answer is false, and nothing changes, outside the band. -/
def sample (c : Controller) (micros held now : ℕ) : Controller × Bool :=
  if sampleUsable micros then
    ({ c with rtt := c.rtt.fold micros held, minRtt := c.minRtt.note micros now }, true)
  else (c, false)

/-- Fold the measurement in, if there is one; the answer is what the assertion on it sees. -/
def foldSample (c : Controller) (delta : CongestionDelta) (now : ℕ) : Controller × Bool :=
  if delta.rttSampleMicros ≠ 0 then c.sample delta.rttSampleMicros delta.ackDelayMicros now
  else (c, true)

def markAcked (c : Controller) (now : ℕ) : Controller := { c with rtt := c.rtt.markAcked now }

/-- What an answer tells about the silence, and every pass about the path. -/
def hear (c : Controller) (delta : CongestionDelta) (now : ℕ) : Controller :=
  let c := if delta.ackedBytes ≠ 0 then c.markAcked now else c
  { c with delivery := c.delivery.sample delta.ackedBytes delta.lostDeclaredBytes now }

/-! ## Starvation -/

def forgetEpisode (c : Controller) (now : ℕ) : Controller :=
  if c.starvedExitedAt ≠ 0 ∧ c.starvedExitedAt + ccStarvedReentryWindowMicros < now then
    { c with starvedExitedAt := 0, starvedQueueCap := 0, starvedMinRtt := 0 }
  else c

def queueOverTarget (c : Controller) : Bool :=
  decide (c.minRtt.lowest ≠ 0 ∧ queueTargetMicros c.minRtt.lowest < c.queueMicros)

def judgeStarvation (lim : Limits) (c : Controller) (delta : CongestionDelta) (now : ℕ) :
    Controller :=
  if c.starvedSince ≠ 0 then c
  else
    let c := c.forgetEpisode now
    if ¬ (c.queueOverTarget = true ∧ c.congestionBudget ≤ ccStarvedBudgetBytes) then
      { c with starvedCandidateSince := 0 }
    else if delta.ackedBytes ≠ 0 ∧ c.starvedExitedAt ≠ 0 then
      -- a relapse: the references of the last episode are kept
      { c with
        starvedSince := now, starvedExitedAt := 0, starvedClearSince := 0,
        starvedCandidateSince := 0 }
    else if c.starvedCandidateSince = 0 then { c with starvedCandidateSince := now }
    else if delta.ackedBytes ≠ 0 ∧
        confirmWindowMicros (c.rtt.roundTripOr lim.retryIntervalMicros) ccStarvedConfirmRounds
          ccStarvedConfirmMinMicros ≤ now - c.starvedCandidateSince then
      { c with
        starvedSince := now
        starvedQueueCap := c.queueMicros +
          queueTargetMicros c.minRtt.lowest / ccStarvedCapSlackDivisor
        starvedMinRtt := c.minRtt.lowest
        starvedClearSince := 0
        starvedCandidateSince := 0 }
    else c

/-! ## Reductions -/

def nextEpoch (c : Controller) : ℕ := (c.congestionEpoch + 1) % 256

/-- The probe has gone unanswered for too long: the budget goes to the floor. -/
def collapse (lim : Limits) (c : Controller) (now : ℕ) : Controller :=
  let c := if c.congestionBudget ≠ lim.minCongestionBudget then
      { c with
        congestionBudget := lim.minCongestionBudget
        wMaxBytes := lim.minCongestionBudget
        congestionEpochMicros := now
        slowStartQueueSince := 0
        congestionEpoch := c.nextEpoch }
    else c
  { c with
    starvedCandidateSince := 0, starvedSince := 0, starvedClearSince := 0, starvedExitedAt := 0,
    starvedQueueCap := 0, starvedMinRtt := 0 }

/-- The silence is longer than a path that is merely busy explains. -/
def persistentSilence (lim : Limits) (c : Controller) (now : ℕ) : Bool :=
  decide (c.rtt.baseTimeout lim.retryIntervalMicros lim.ackDelayMicros *
    persistentCongestionProbes < c.rtt.silentForMicros now)

def probe (lim : Limits) (c : Controller) (delta : CongestionDelta) (now : ℕ) : Controller :=
  if delta.sawProbe = true ∧ delta.ackedBytes = 0 ∧ c.persistentSilence lim now = true then
    c.collapse lim now
  else c

/-- The loss was the path filling up, by the queue or by the size of the bite. -/
def congested (c : Controller) (delta : CongestionDelta) (inFlightAtEvent : ℕ) : Bool :=
  let minRtt := c.minRtt.lowest
  let bigBite := decide (delta.lostDeclaredBytes + delta.ackedBytes ≤ delta.lostDeclaredBytes * 2) &&
    decide (3 * maxWirePacketSize ≤ delta.lostDeclaredBytes) &&
    c.delivery.couldOverflow minRtt inFlightAtEvent
  let lossAboveTolerance := decide (ccLossTolerancePercent < c.delivery.lossPercent)
  let queueStanding := if c.starvedSince ≠ 0
    then decide (c.starvedQueueCap < c.starvedWorstQueueMicros) else c.queueOverTarget
  decide (minRtt = 0) || queueStanding || bigBite && lossAboveTolerance

def trim (lim : Limits) (c : Controller) (delta : CongestionDelta) (inFlightAtEvent now : ℕ) :
    Controller :=
  let isCongested := c.congested delta inFlightAtEvent
  let retain := if isCongested then ccLossRetainPercent else ccNoiseRetainPercent
  let trimmed := max (c.congestionBudget * retain / 100) lim.minCongestionBudget
  let anchored := if isCongested then
      { c with
        wMaxBytes := c.congestionBudget, slowStartThreshold := trimmed, congestionEpochMicros := now }
    else c
  { anchored with
    congestionBudget := trimmed, slowStartQueueSince := 0, congestionEpoch := c.nextEpoch }

/-! ## Growth -/

def anchorHere (c : Controller) (now : ℕ) : Controller :=
  { c with
    slowStartThreshold := c.congestionBudget
    wMaxBytes := c.congestionBudget
    congestionEpochMicros := now
    slowStartQueueSince := 0 }

def ramp (lim : Limits) (c : Controller) (delta : CongestionDelta) : Controller :=
  { c with
    congestionBudget := rampStep c.congestionBudget delta.ackedBytes lim.maxCongestionBudget }

def regrow (lim : Limits) (c : Controller) (delta : CongestionDelta) : Controller × Bool :=
  if c.starvedQueueCap < c.starvedWorstQueueMicros then (c, false) else (c.ramp lim delta, true)

/-- Recovery from starvation.  Each growth answers with the controller and whether the budget
was checked on the way out. -/
def recover (lim : Limits) (c : Controller) (delta : CongestionDelta) (now : ℕ) :
    Controller × Bool :=
  if c.starvedQueueMicros ≤ queueTargetMicros c.starvedMinRtt then
    if c.starvedClearSince = 0 then { c with starvedClearSince := now }.regrow lim delta
    else if confirmWindowMicros (c.rtt.roundTripOr lim.retryIntervalMicros) ccStarvedExitRounds
        ccStarvedExitMinMicros ≤ now - c.starvedClearSince then
      ({ c with starvedSince := 0, starvedExitedAt := now, starvedClearSince := 0 }.anchorHere now,
        true)
    else c.regrow lim delta
  else { c with starvedClearSince := 0 }.regrow lim delta

/-- Readings of the queue are not acted on below the opening window. -/
def signalLive (c : Controller) : Bool :=
  decide (c.minRtt.lowest ≠ 0 ∧ ccInitialWindowBytes ≤ c.congestionBudget)

def queueStanding (c : Controller) : Bool :=
  c.signalLive && decide (queueTargetMicros c.minRtt.lowest < c.queueMicros)

def latestStanding (c : Controller) : Bool :=
  c.signalLive && decide (queueTargetMicros c.minRtt.lowest < c.latestQueueMicros)

def slowStart (lim : Limits) (c : Controller) (delta : CongestionDelta) (now : ℕ) :
    Controller × Bool :=
  if c.slowStartQueueSince = 0 then
    if c.latestStanding then ({ c with slowStartQueueSince := now }, false)
    else (c.ramp lim delta, true)
  else if !c.latestStanding && !c.queueStanding then
    ({ c with slowStartQueueSince := 0 }.ramp lim delta, true)
  else if ccSlowStartConfirmRounds * c.rtt.roundTripOr lim.retryIntervalMicros ≤
      now - c.slowStartQueueSince then (c.anchorHere now, true)
  else (c, false)

/-- Congestion avoidance: at most one packet towards the curve. -/
def followCurve (lim : Limits) (c : Controller) (now : ℕ) : Controller :=
  let c := if c.congestionEpochMicros = 0 then
      { c with
        congestionEpochMicros := now
        wMaxBytes := if c.wMaxBytes = 0 then c.congestionBudget else c.wMaxBytes }
    else c
  let elapsed := now - c.congestionEpochMicros
  let cubic := (cubicWindow c.wMaxBytes elapsed).getD lim.undefinedWindow
  let want := max cubic (renoWindow c.wMaxBytes elapsed c.rtt.srttMicros)
  if c.congestionBudget < want then
    { c with
      congestionBudget := growBudget c.congestionBudget
        (min (want - c.congestionBudget) maxWirePacketSize) lim.maxCongestionBudget }
  else c

def grow (lim : Limits) (c : Controller) (delta : CongestionDelta) (now : ℕ) : Controller × Bool :=
  if c.starvedSince ≠ 0 then c.recover lim delta now
  else if c.congestionBudget < c.slowStartThreshold then c.slowStart lim delta now
  else if c.queueStanding then (c, false)
  else (c.followCurve lim now, true)

/-! ## The whole pass -/

def measure (c : Controller) (delta : CongestionDelta) (now : ℕ) : Controller :=
  ((c.settle delta).foldSample delta now).1.hear delta now

/-- The picture every branch judges, with the starvation verdict taken. -/
def observe (lim : Limits) (c : Controller) (delta : CongestionDelta) (now : ℕ) : Controller :=
  (c.measure delta now).judgeStarvation lim delta now

/-- A call of `ApplyCongestion` and what its assertions saw. -/
structure Applied where
  peer : Controller
  /-- The sample, if there was one, was accepted. -/
  usable : Bool
  /-- `AssertBudgetInRange` was reached, which is always the last thing a call does. -/
  checked : Bool

/-- A report of loss counts if it names the present epoch or a later one. -/
def lossCounts (c : Controller) (delta : CongestionDelta) : Bool :=
  delta.sawLoss && epochReached delta.lostEpoch c.congestionEpoch

def applyCongestion (lim : Limits) (c : Controller) (delta : CongestionDelta) (now : ℕ) : Applied :=
  let usable := ((c.settle delta).foldSample delta now).2
  let seen := (c.observe lim delta now).probe lim delta now
  if seen.lossCounts delta then ⟨seen.trim lim delta c.bytesInFlight now, usable, true⟩
  else if delta.ackedBytes = 0 then ⟨seen, usable, false⟩
  else ⟨(seen.grow lim delta now).1, usable, (seen.grow lim delta now).2⟩

theorem applyCongestion_of_ack {lim : Limits} {c seen : Controller} {delta : CongestionDelta}
    {now : ℕ} (hseen : (c.observe lim delta now).probe lim delta now = seen)
    (hloss : seen.lossCounts delta = false) (hacked : delta.ackedBytes ≠ 0) :
    (c.applyCongestion lim delta now).peer = (seen.grow lim delta now).1 ∧
      (c.applyCongestion lim delta now).checked = (seen.grow lim delta now).2 := by
  rw [applyCongestion, hseen]
  simp [hloss, hacked]

/-! ## What a pass leaves alone -/

section Frame
variable (lim : Limits) (c : Controller) (delta : CongestionDelta) (now : ℕ)

@[simp] theorem settle_congestionBudget :
    (c.settle delta).congestionBudget = c.congestionBudget := rfl

@[simp] theorem foldSample_congestionBudget :
    (c.foldSample delta now).1.congestionBudget = c.congestionBudget := by
  unfold foldSample sample
  split_ifs <;> rfl

@[simp] theorem hear_congestionBudget : (c.hear delta now).congestionBudget = c.congestionBudget := by
  unfold hear
  split_ifs <;> rfl

@[simp] theorem forgetEpisode_congestionBudget :
    (c.forgetEpisode now).congestionBudget = c.congestionBudget := by
  unfold forgetEpisode
  split_ifs <;> rfl

@[simp] theorem judgeStarvation_congestionBudget :
    (c.judgeStarvation lim delta now).congestionBudget = c.congestionBudget := by
  unfold judgeStarvation
  dsimp only
  split_ifs <;> simp

@[simp] theorem observe_congestionBudget :
    (c.observe lim delta now).congestionBudget = c.congestionBudget := by
  simp [observe, measure]

end Frame

/-! ## What is settled before the branches

No branch touches the estimate of the round trip or the two counters once the measurements are
folded in.  The accounts of the socket leave open what a pass makes of the budget; the
controller is one choice of it. -/

def settled (c : Controller) : RttEstimate × ℕ × ℕ := (c.rtt, c.bytesInFlight, c.outstandingToPeer)

section Settled
variable (lim : Limits) (c : Controller) (delta : CongestionDelta) (now : ℕ)

theorem judgeStarvation_settled : (c.judgeStarvation lim delta now).settled = c.settled ∧
    (c.judgeStarvation lim delta now).congestionEpoch = c.congestionEpoch := by
  unfold judgeStarvation forgetEpisode
  dsimp only
  split_ifs <;> exact ⟨rfl, rfl⟩

theorem probe_settled : (c.probe lim delta now).settled = c.settled := by
  unfold probe collapse
  split_ifs <;> rfl

theorem trim_settled (inFlightAtEvent : ℕ) :
    (c.trim lim delta inFlightAtEvent now).settled = c.settled := by
  unfold trim
  dsimp only
  split_ifs <;> rfl

theorem regrow_settled : (c.regrow lim delta).1.settled = c.settled ∧
    (c.regrow lim delta).1.congestionEpoch = c.congestionEpoch := by
  unfold regrow
  split_ifs <;> exact ⟨rfl, rfl⟩

theorem grow_settled : (c.grow lim delta now).1.settled = c.settled ∧
    (c.grow lim delta now).1.congestionEpoch = c.congestionEpoch := by
  unfold grow
  split_ifs
  · unfold recover
    split_ifs
    · exact regrow_settled lim _ delta
    · exact ⟨rfl, rfl⟩
    · exact regrow_settled lim c delta
    · exact regrow_settled lim _ delta
  · unfold slowStart
    split_ifs <;> exact ⟨rfl, rfl⟩
  · exact ⟨rfl, rfl⟩
  · unfold followCurve
    dsimp only
    split_ifs <;> exact ⟨rfl, rfl⟩

theorem applyCongestion_settled :
    (c.applyCongestion lim delta now).peer.settled = (c.measure delta now).settled := by
  have hseen : ((c.observe lim delta now).probe lim delta now).settled =
      (c.measure delta now).settled := by
    rw [probe_settled, observe, (judgeStarvation_settled lim _ delta now).1]
  unfold applyCongestion
  dsimp only
  split_ifs
  · rw [trim_settled, hseen]
  · exact hseen
  · rw [(grow_settled lim _ delta now).1, hseen]

theorem measure_counters :
    (c.measure delta now).bytesInFlight = c.bytesInFlight - delta.resolvedBytes ∧
      (c.measure delta now).outstandingToPeer = c.outstandingToPeer - delta.resolvedPackets ∧
      (c.measure delta now).congestionEpoch = c.congestionEpoch := by
  unfold measure foldSample sample hear
  split_ifs <;> exact ⟨rfl, rfl, rfl⟩

theorem measure_lastAcked : (c.measure delta now).rtt.lastAckedAtMicros =
    if delta.ackedBytes ≠ 0 then now else c.rtt.lastAckedAtMicros := by
  have hfold : ∀ (rtt : RttEstimate) (micros held : ℕ),
      (rtt.fold micros held).lastAckedAtMicros = rtt.lastAckedAtMicros := by
    intro rtt micros held
    unfold RttEstimate.fold
    dsimp only
    split_ifs <;> rfl
  unfold measure hear
  split_ifs
  · rfl
  · unfold foldSample sample
    split_ifs
    · exact hfold _ _ _
    · rfl
    · rfl

theorem applyCongestion_rtt :
    (c.applyCongestion lim delta now).peer.rtt = (c.measure delta now).rtt :=
  congrArg Prod.fst (applyCongestion_settled lim c delta now)

/-- The epoch the loss branch judges by: a collapse may have advanced it. -/
theorem observe_probe_epoch (hword : c.congestionEpoch < 256) :
    ∃ k ≤ 1, ((c.observe lim delta now).probe lim delta now).congestionEpoch =
      (c.congestionEpoch + k) % 256 := by
  have hseen : (c.observe lim delta now).congestionEpoch = c.congestionEpoch :=
    (judgeStarvation_settled lim _ delta now).2.trans (measure_counters c delta now).2.2
  unfold probe collapse nextEpoch
  rw [hseen]
  split_ifs
  · exact ⟨1, le_rfl, rfl⟩
  all_goals exact ⟨0, Nat.zero_le 1, hseen.trans (Nat.mod_eq_of_lt hword).symm⟩

theorem applyCongestion_epoch (hword : c.congestionEpoch < 256) :
    ∃ k ≤ 2, (c.applyCongestion lim delta now).peer.congestionEpoch =
        (c.congestionEpoch + k) % 256 ∧
      (((c.observe lim delta now).probe lim delta now).lossCounts delta = true → 1 ≤ k) := by
  obtain ⟨k, hk, hseen⟩ := observe_probe_epoch lim c delta now hword
  unfold applyCongestion
  dsimp only
  generalize (c.observe lim delta now).probe lim delta now = seen at hseen ⊢
  split_ifs with hloss
  · have hnext : (seen.trim lim delta c.bytesInFlight now).congestionEpoch = seen.nextEpoch := by
      unfold trim
      dsimp only
    refine ⟨k + 1, by omega, hnext.trans ?_, fun _ => by omega⟩
    rw [nextEpoch, hseen]
    omega
  · exact ⟨k, by omega, hseen, fun h => absurd h hloss⟩
  · exact ⟨k, by omega, (grow_settled lim seen delta now).2.trans hseen, fun h => absurd h hloss⟩

theorem growBudget_lt (budget step ceiling : ℕ) : growBudget budget step ceiling < 2 ^ 32 := by
  have hword := Nat.mod_lt (budget + step) (show 0 < 2 ^ 32 by decide)
  unfold growBudget u32 uint32Max
  dsimp only
  split_ifs <;> omega

theorem grow_lt {c : Controller} (hbudget : c.congestionBudget < 2 ^ 32) :
    (c.grow lim delta now).1.congestionBudget < 2 ^ 32 := by
  unfold grow recover regrow slowStart followCurve
  dsimp only
  split_ifs <;> first | exact growBudget_lt _ _ _ | exact hbudget

theorem cut_le (budget : ℕ) (isCongested : Bool) :
    budget * (if isCongested then ccLossRetainPercent else ccNoiseRetainPercent) / 100 ≤ budget := by
  have hretain : (if isCongested then ccLossRetainPercent else ccNoiseRetainPercent) ≤ 100 := by
    cases isCongested <;> decide
  exact Nat.div_le_of_le_mul ((Nat.mul_le_mul_left _ hretain).trans_eq (Nat.mul_comm _ _))

/-- The budget stays in its word: a cut goes down or to the floor, and growth saturates. -/
theorem applyCongestion_lt {lim : Limits} {c : Controller}
    (hfloor : lim.minCongestionBudget < 2 ^ 32) (hbudget : c.congestionBudget < 2 ^ 32) :
    (c.applyCongestion lim delta now).peer.congestionBudget < 2 ^ 32 := by
  have hseen : ((c.observe lim delta now).probe lim delta now).congestionBudget < 2 ^ 32 := by
    unfold probe collapse
    split_ifs
    · exact hfloor
    all_goals exact (observe_congestionBudget lim c delta now).trans_lt hbudget
  unfold applyCongestion
  dsimp only
  split_ifs
  · unfold trim
    dsimp only
    exact max_lt ((cut_le _ _).trans_lt hseen) hfloor
  · exact hseen
  · exact grow_lt lim delta now hseen

/-- The pass is the one the accounts of the socket assume. -/
theorem applyCongestion_accounts (hfloor : lim.minCongestionBudget < 2 ^ 32)
    (hbudget : c.congestionBudget < 2 ^ 32) :
    (c.applyCongestion lim delta now).peer.toPeerBudget =
      Socket.applyCongestion c.toPeerBudget (c.applyCongestion lim delta now).peer.toPeerBudget
        delta.resolved := by
  have hword := applyCongestion_lt delta now hfloor hbudget
  have hsettled := applyCongestion_settled lim c delta now
  rw [settled, settled, Prod.mk.injEq, Prod.mk.injEq] at hsettled
  obtain ⟨hbytes, hpackets, -⟩ := measure_counters c delta now
  rw [hbytes, hpackets] at hsettled
  generalize (c.applyCongestion lim delta now).peer.toPeerBudget = next at hsettled hword ⊢
  unfold Socket.applyCongestion retune refund transferResolve
  dsimp only [CongestionDelta.resolved]
  rw [← hsettled.2.1, ← hsettled.2.2, u32, Nat.mod_eq_of_lt hword]

/-- A loss of 40 of 100 bytes is a trim, and the refund of the loss. -/
theorem applyCongestion_accounts_loss :
    let lim : Limits := ⟨ccMinBudgetDefault, uint32Max, 0, 0, 0⟩
    let c : Controller := { registered with bytesInFlight := 100, outstandingToPeer := 2 }
    let next := (c.applyCongestion lim ⟨40, 1, 0, 0, 0, true, 40, 0, false⟩ 5).peer.toPeerBudget
    next.congestionBudget = 8400 ∧ next.bytesInFlight = 60 ∧
      next = Socket.applyCongestion c.toPeerBudget next (40, 1) :=
  ⟨by decide +kernel, by decide +kernel, applyCongestion_accounts _ _ _ _ (by decide) (by decide)⟩

end Settled

/-! ## The range of the budget -/

def InRange (lim : Limits) (c : Controller) : Prop :=
  lim.minCongestionBudget ≤ c.congestionBudget ∧ c.congestionBudget ≤ lim.maxCongestionBudget

instance (lim : Limits) (c : Controller) : Decidable (c.InRange lim) :=
  inferInstanceAs (Decidable (_ ∧ _))

theorem growBudget_bounds {budget ceiling : ℕ} (step : ℕ) (hbudget : budget ≤ ceiling)
    (hceiling : ceiling ≤ uint32Max) :
    budget ≤ growBudget budget step ceiling ∧ growBudget budget step ceiling ≤ ceiling := by
  unfold growBudget
  dsimp only
  split_ifs <;> omega

section Range
variable {lim : Limits} {c : Controller} (delta : CongestionDelta) (now : ℕ)

theorem InRange.of_budget_eq {c' : Controller} (h : c.InRange lim)
    (heq : c'.congestionBudget = c.congestionBudget) : c'.InRange lim := by
  unfold InRange
  rwa [heq]

theorem InRange.probe (h : c.InRange lim) : (c.probe lim delta now).InRange lim := by
  unfold Controller.probe collapse
  split_ifs
  · exact ⟨le_rfl, h.1.trans h.2⟩
  · exact h
  · exact h

theorem InRange.trim (h : c.InRange lim) (inFlightAtEvent : ℕ) :
    (c.trim lim delta inFlightAtEvent now).InRange lim :=
  ⟨le_max_right _ _, max_le ((cut_le _ _).trans h.2) (h.1.trans h.2)⟩

theorem InRange.ramp (h : c.InRange lim) (hmost : lim.maxCongestionBudget ≤ uint32Max) :
    (c.ramp lim delta).InRange lim := by
  have hgrown := growBudget_bounds (if delta.ackedBytes = 0 then 1 else delta.ackedBytes) h.2 hmost
  exact ⟨h.1.trans hgrown.1, hgrown.2⟩

theorem InRange.regrow (h : c.InRange lim) (hmost : lim.maxCongestionBudget ≤ uint32Max) :
    (c.regrow lim delta).1.InRange lim := by
  unfold Controller.regrow
  split_ifs
  · exact h
  · exact h.ramp delta hmost

theorem InRange.recover (h : c.InRange lim) (hmost : lim.maxCongestionBudget ≤ uint32Max) :
    (c.recover lim delta now).1.InRange lim := by
  unfold Controller.recover
  split_ifs
  · exact InRange.regrow delta (h.of_budget_eq rfl) hmost
  · exact h.of_budget_eq rfl
  · exact h.regrow delta hmost
  · exact InRange.regrow delta (h.of_budget_eq rfl) hmost

theorem InRange.slowStart (h : c.InRange lim) (hmost : lim.maxCongestionBudget ≤ uint32Max) :
    (c.slowStart lim delta now).1.InRange lim := by
  unfold Controller.slowStart
  split_ifs
  · exact h.of_budget_eq rfl
  · exact h.ramp delta hmost
  · exact InRange.ramp delta (h.of_budget_eq rfl) hmost
  · exact h.of_budget_eq rfl
  · exact h

theorem InRange.followCurve (h : c.InRange lim) (hmost : lim.maxCongestionBudget ≤ uint32Max) :
    (c.followCurve lim now).InRange lim := by
  unfold Controller.followCurve
  dsimp only
  generalize hstart : (if c.congestionEpochMicros = 0 then
    { c with
      congestionEpochMicros := now
      wMaxBytes := if c.wMaxBytes = 0 then c.congestionBudget else c.wMaxBytes }
    else c) = start
  have hrange : start.InRange lim := by
    refine h.of_budget_eq ?_
    rw [← hstart]
    split_ifs <;> rfl
  split_ifs
  · exact ⟨hrange.1.trans (growBudget_bounds _ hrange.2 hmost).1,
      (growBudget_bounds _ hrange.2 hmost).2⟩
  · exact hrange

theorem InRange.grow (h : c.InRange lim) (hmost : lim.maxCongestionBudget ≤ uint32Max) :
    (c.grow lim delta now).1.InRange lim := by
  unfold Controller.grow
  split_ifs
  · exact h.recover delta now hmost
  · exact h.slowStart delta now hmost
  · exact h
  · exact h.followCurve now hmost

theorem InRange.applyCongestion (h : c.InRange lim) (hmost : lim.maxCongestionBudget ≤ uint32Max) :
    (c.applyCongestion lim delta now).peer.InRange lim := by
  have hseen : ((c.observe lim delta now).probe lim delta now).InRange lim :=
    InRange.probe delta now (h.of_budget_eq (observe_congestionBudget lim c delta now))
  unfold Controller.applyCongestion
  dsimp only
  split_ifs
  · exact hseen.trim delta now c.bytesInFlight
  · exact hseen
  · exact hseen.grow delta now hmost

end Range

/-! ## Sequences of calls -/

/-- A call, and what sends and the session have made of the counters and of the silence clock
since the call before it. -/
structure Call where
  bytesInFlight : ℕ
  outstandingToPeer : ℕ
  lastAckedAt : ℕ
  delta : CongestionDelta
  now : ℕ

def met (c : Controller) (call : Call) : Controller :=
  { c with
    bytesInFlight := call.bytesInFlight
    outstandingToPeer := call.outstandingToPeer
    rtt := { c.rtt with lastAckedAtMicros := call.lastAckedAt } }

def step (lim : Limits) (c : Controller) (call : Call) : Controller :=
  ((c.met call).applyCongestion lim call.delta call.now).peer

/-- If the call reaches `AssertBudgetInRange`, the assertion holds. -/
def AssertionHolds (lim : Limits) (c : Controller) (call : Call) : Prop :=
  ((c.met call).applyCongestion lim call.delta call.now).checked = true →
    (c.step lim call).InRange lim

/-! ### Slow start can end before the budget has moved

Two samples open a queue of a dozen milliseconds, the ramp holds flat, and two round trips
later it ends where it stands: the check then sees the budget of the registration.  None of
the three calls reads the bounds. -/

def openingSample : Call := ⟨0, 0, 0, { CongestionDelta.zero with rttSampleMicros := 1000 }, 1⟩

def queuedSample : Call :=
  ⟨0, 0, 0, { CongestionDelta.zero with rttSampleMicros := 100000, ackedBytes := 1 }, 2⟩

def confirmingAck : Call := ⟨0, 0, 2, { CongestionDelta.zero with ackedBytes := 1 }, 26752⟩

/-- The path of both samples, before anything is made of it. -/
def queuedPath : Controller :=
  { registered with
    rtt := ⟨13375, 25125, 0, 100000, 2⟩
    minRtt := ⟨[1000, 0, 0], 1⟩
    delivery := ⟨[(1, 0), (0, 0), (0, 0), (0, 0)], 1, false⟩ }

def openedPath : Controller :=
  { registered with
    rtt := ⟨1000, 500, 0, 1000, 0⟩
    minRtt := ⟨[1000, 0, 0], 1⟩
    delivery := ⟨[(0, 0), (0, 0), (0, 0), (0, 0)], 1, false⟩ }

def heldPath : Controller :=
  { queuedPath with slowStartQueueSince := 2, starvedCandidateSince := 2 }

def confirmedPath : Controller :=
  { heldPath with
    rtt := ⟨13375, 25125, 0, 100000, 26752⟩
    delivery := ⟨[(2, 0), (0, 0), (0, 0), (0, 0)], 1, false⟩ }

theorem step_openingSample (lim : Limits) : registered.step lim openingSample = openedPath := by
  rfl

theorem step_queuedSample (lim : Limits) : openedPath.step lim queuedSample = heldPath := by
  have hmeasured : (openedPath.met queuedSample).measure queuedSample.delta queuedSample.now =
      queuedPath := by decide +kernel
  have hseen : ((openedPath.met queuedSample).observe lim queuedSample.delta
      queuedSample.now).probe lim queuedSample.delta queuedSample.now =
      { queuedPath with starvedCandidateSince := 2 } := by
    rw [observe, hmeasured]
    rfl
  have hgrown : ({ queuedPath with starvedCandidateSince := 2 } : Controller).grow lim
      queuedSample.delta queuedSample.now = (heldPath, false) := rfl
  rw [step, (applyCongestion_of_ack hseen rfl (by decide)).1, hgrown]

theorem step_confirmingAck (lim : Limits) :
    ((heldPath.met confirmingAck).applyCongestion lim confirmingAck.delta
        confirmingAck.now).checked = true ∧
      (heldPath.step lim confirmingAck).congestionBudget = ccInitialWindowBytes := by
  have hmeasured : (heldPath.met confirmingAck).measure confirmingAck.delta confirmingAck.now =
      confirmedPath := by decide +kernel
  have hseen : ((heldPath.met confirmingAck).observe lim confirmingAck.delta
      confirmingAck.now).probe lim confirmingAck.delta confirmingAck.now = confirmedPath := by
    rw [observe, hmeasured]
    rfl
  have hgrown : confirmedPath.grow lim confirmingAck.delta confirmingAck.now =
      (confirmedPath.anchorHere confirmingAck.now, true) := rfl
  obtain ⟨hpeer, hchecked⟩ := applyCongestion_of_ack hseen rfl (by decide)
  rw [hgrown] at hpeer hchecked
  refine ⟨hchecked, ?_⟩
  rw [step, hpeer]
  rfl

/-! ### The assertion -/

theorem registered_inRange {lim : Limits} (hleast : lim.minCongestionBudget ≤ ccInitialWindowBytes)
    (hmost : ccInitialWindowBytes ≤ lim.maxCongestionBudget) : registered.InRange lim :=
  ⟨hleast, hmost⟩

theorem initFlows_ceiling (config : FlowConfig) (retryInterval ackDelay undefinedWindow : ℕ) :
    let lim := initFlows config retryInterval ackDelay undefinedWindow
    ccInitialWindowBytes ≤ lim.maxCongestionBudget ∧ lim.maxCongestionBudget ≤ uint32Max := by
  have hwindow : ccInitialWindowBytes = 12000 := rfl
  have hword : uint32Max = 4294967295 := rfl
  have hceiling : config.maxOutPerPeer * flowWindowBulk * maxWirePacketSize =
      config.maxOutPerPeer * 1228800 := Nat.mul_assoc _ _ _
  unfold initFlows
  dsimp only
  rw [hceiling, hwindow, hword]
  split_ifs <;> dsimp only <;> omega

/-- The budget is in range at every assertion of every sequence of calls on a registered peer
exactly when the floor of the configuration admits the opening window. -/
theorem budget_assertions_hold_iff (config : FlowConfig)
    (retryInterval ackDelay undefinedWindow : ℕ) :
    let lim := initFlows config retryInterval ackDelay undefinedWindow
    (∀ calls, Along (step lim) (AssertionHolds lim) registered calls) ↔
      lim.minCongestionBudget ≤ ccInitialWindowBytes := by
  intro lim
  obtain ⟨hmost, hword⟩ := initFlows_ceiling config retryInterval ackDelay undefinedWindow
  constructor
  · intro hall
    obtain ⟨-, -, hconfirm, -⟩ := hall [openingSample, queuedSample, confirmingAck]
    rw [step_openingSample, step_queuedSample] at hconfirm
    obtain ⟨hchecked, hbudget⟩ := step_confirmingAck lim
    have hrange := hconfirm hchecked
    rw [InRange, hbudget] at hrange
    exact hrange.1
  · intro hleast calls
    have hstep : ∀ c : Controller, c.InRange lim → ∀ call, (c.step lim call).InRange lim :=
      fun c h call => InRange.applyCongestion (c := c.met call) call.delta call.now h hword
    have hrun : ∀ (calls : List Call) (c : Controller), c.InRange lim →
        Along (step lim) (AssertionHolds lim) c calls := by
      intro calls
      induction calls with
      | nil => exact fun _ _ => trivial
      | cons call calls ih => exact fun c h => ⟨fun _ => hstep c h call, ih _ (hstep c h call)⟩
    exact hrun calls registered (registered_inRange hleast hmost)

/-- A floor of 24000 bytes is accepted; the first acknowledgement asserts a budget of 13200. -/
theorem budget_assertion_fails :
    let lim := initFlows ⟨4, 4, 8, 24000⟩ 50000 5000 0
    let call : Call := ⟨1200, 1, 1000000,
      { CongestionDelta.zero with resolvedBytes := 1200, resolvedPackets := 1, ackedBytes := 1200 },
      1040000⟩
    ((registered.met call).applyCongestion lim call.delta call.now).checked = true ∧
      (registered.step lim call).congestionBudget = 13200 ∧
      lim.minCongestionBudget = 24000 ∧ ¬ (registered.step lim call).InRange lim := by
  decide +kernel

end Controller

end BcpFlux.Socket
