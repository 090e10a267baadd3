import BcpFlux.Flow.Cells

/-! # The deadline a blocking caller waits for

`NextDeadline` re-derives from the associations of a peer when the next `Update` has something
to do.  For the sending side it applies the retransmit pass's own timeout to the oldest
stamp.  For the receiving side it knows the delay and neither of the two reasons for which
`AnyAckDue` answers at once.
-/

namespace BcpFlux.Flow
open Library Peer

def ackEveryPackets : ℕ := 2
def uint64Max : ℕ := 2 ^ 64 - 1

/-- The acknowledgement is due before its delay: a gap was seen, or enough is owed. -/
def InAssociation.owesAtOnce (flow : InAssociation) : Bool :=
  flow.ackImmediate || decide (ackEveryPackets ≤ flow.newSinceFlush)

def anyAckDue (timers : FlowTimers) (ins : List InAssociation) (now : ℕ) : Bool :=
  ins.any fun flow => decide (0 < flow.newSinceFlush) &&
    (flow.owesAtOnce || decide (timers.ackDelayMicros ≤ elapsed now flow.ackArmedMicros))

def deadlineTimeout (timers : FlowTimers) (rtt : RttEstimate) (now : ℕ) : ℕ :=
  let rtoBase := rtt.baseTimeout timers.retryIntervalMicros timers.ackDelayMicros
  let bound := flowDeathRounds * rtoBase
  let bound := if bound < timers.retryIntervalMicros then timers.retryIntervalMicros else bound
  let probeCap := bound / flowDeathMinProbes
  let probeCap := if probeCap < rtoBase then rtoBase else probeCap
  let rto := rtt.retransmitTimeout timers.retryIntervalMicros timers.ackDelayMicros now
  if probeCap < rto then probeCap else rto

def olderOf (stamp : ℕ) : Option ℕ → ℕ
  | none => stamp
  | some oldest => if stamp < oldest then stamp else oldest

/-- The loop over the ring with `left` cells to go, `k` the next: a zero stamp ends it. -/
def oldestStamp (ring : ℕ → InFlightEntry) : ℕ → ℕ → Option ℕ → Option ℕ
  | 0, _, oldest => oldest
  | left + 1, k, oldest =>
    if (ring k).seq = 0 ∨ (ring k).acked = true then oldestStamp ring left (k + 1) oldest
    else if (ring k).sentAtMicros = 0 then some 0
    else oldestStamp ring left (k + 1) (some (olderOf (ring k).sentAtMicros oldest))

def consider (soonest deadline : ℕ) : ℕ := if deadline < soonest then deadline else soonest

def considerIn (timers : FlowTimers) (soonest : ℕ) (flow : InAssociation) : ℕ :=
  if 0 < flow.newSinceFlush then consider soonest (flow.ackArmedMicros + timers.ackDelayMicros)
  else soonest

def considerOut (timers : FlowTimers) (rtt : RttEstimate) (now soonest : ℕ)
    (flow : OutAssociation) : ℕ :=
  if flow.life = .opened ∧ 0 < flow.unresolved then
    match oldestStamp flow.inFlight flow.inflightCap 0 none with
    | none => soonest
    | some oldest =>
      consider soonest (if oldest = 0 then now else oldest + deadlineTimeout timers rtt now)
  else soonest

def nextDeadline (timers : FlowTimers) (rtt : RttEstimate) (ins : List InAssociation)
    (outs : List OutAssociation) (now : ℕ) : ℕ :=
  outs.foldl (considerOut timers rtt now) (ins.foldl (considerIn timers) uint64Max)

/-! ## The sending side -/

theorem deadlineTimeout_eq (timers : FlowTimers) (rtt : RttEstimate) (now : ℕ) :
    deadlineTimeout timers rtt now = OutAssociation.probeTimeout timers rtt now := by
  unfold deadlineTimeout OutAssociation.probeTimeout OutAssociation.deathBound
  dsimp only
  have hmax : ∀ a b : ℕ, (if a < b then b else a) = max a b := by
    intro a b
    split <;> omega
  have hmin : ∀ a b : ℕ, (if a < b then a else b) = min b a := by
    intro a b
    split <;> omega
  rw [hmax, hmax, hmin]

theorem retransmitTimeout_pos (rtt : RttEstimate) (fallback ackCadence now : ℕ) :
    0 < rtt.retransmitTimeout fallback ackCadence now := by
  unfold RttEstimate.retransmitTimeout
  dsimp only
  split_ifs with hshort
  · decide
  · have hmax : rtoMaxMicros = 60000000 := rfl
    omega

theorem probeTimeout_pos (timers : FlowTimers) (rtt : RttEstimate) (now : ℕ) :
    0 < OutAssociation.probeTimeout timers rtt now :=
  lt_min (retransmitTimeout_pos _ _ _ _)
    (lt_max_of_lt_right (retransmitTimeout_pos _ _ _ _))

theorem olderOf_spec (stamp : ℕ) (oldest : Option ℕ) :
    (olderOf stamp oldest = stamp ∨ oldest = some (olderOf stamp oldest)) ∧
      olderOf stamp oldest ≤ stamp ∧ ∀ o, oldest = some o → olderOf stamp oldest ≤ o := by
  cases oldest with
  | none => simp [olderOf]
  | some o =>
    rw [olderOf]
    split_ifs with hlt
    · exact ⟨.inl rfl, le_rfl, fun o' ho' => by cases ho'; omega⟩
    · exact ⟨.inr rfl, by omega, fun o' ho' => by cases ho'; exact le_rfl⟩

/-- The stamp the loop ends with: it is one of an outstanding cell or the one it started with,
and no outstanding cell is older. -/
theorem oldestStamp_spec (ring : ℕ → InFlightEntry) (left k : ℕ) (start : Option ℕ) :
    (∀ o, oldestStamp ring left k start = some o →
        start = some o ∨ ∃ i, k ≤ i ∧ i < k + left ∧ (ring i).Outstanding ∧ (ring i).sentAtMicros = o) ∧
      (∀ o, start = some o → ∃ o' ≤ o, oldestStamp ring left k start = some o') ∧
      ∀ i, k ≤ i → i < k + left → (ring i).Outstanding →
        ∃ o ≤ (ring i).sentAtMicros, oldestStamp ring left k start = some o := by
  induction left generalizing k start with
  | zero =>
    refine ⟨fun o h => .inl h, fun o h => ⟨o, le_rfl, h⟩, ?_⟩
    intro i hlo hhi
    omega
  | succ left ih =>
    rw [oldestStamp]
    by_cases hskip : (ring k).seq = 0 ∨ (ring k).acked = true
    · rw [if_pos hskip]
      obtain ⟨hfrom, hstart, hcell⟩ := ih (k + 1) start
      refine ⟨?_, hstart, ?_⟩
      · intro o ho
        rcases hfrom o ho with h | ⟨i, hlo, hhi, h⟩
        · exact .inl h
        · exact .inr ⟨i, by omega, by omega, h⟩
      · intro i hlo hhi hopen
        have hne : i ≠ k := by
          rintro rfl
          rcases hskip with h | h
          · exact hopen.1 h
          · rw [hopen.2] at h
            cases h
        exact hcell i (by omega) (by omega) hopen
    · have hopen : (ring k).Outstanding := by simpa [InFlightEntry.Outstanding] using hskip
      rw [if_neg hskip]
      by_cases hzero : (ring k).sentAtMicros = 0
      · rw [if_pos hzero]
        refine ⟨?_, fun o _ => ⟨0, Nat.zero_le o, rfl⟩, fun i _ _ _ => ⟨0, Nat.zero_le _, rfl⟩⟩
        intro o ho
        exact .inr ⟨k, le_rfl, by omega, hopen, hzero.trans (Option.some.inj ho)⟩
      · rw [if_neg hzero]
        have hstamp := olderOf_spec (ring k).sentAtMicros start
        generalize olderOf (ring k).sentAtMicros start = next at hstamp ⊢
        obtain ⟨hfound, hstamp⟩ := hstamp
        obtain ⟨hfrom, hstart, hcell⟩ := ih (k + 1) (some next)
        obtain ⟨first, hfirst, heq⟩ := hstart next rfl
        refine ⟨?_, ?_, ?_⟩
        · intro o ho
          rcases hfrom o ho with h | ⟨i, hlo, hhi, h⟩
          · rw [Option.some.injEq] at h
            subst h
            rcases hfound with h | h
            · exact .inr ⟨k, le_rfl, by omega, hopen, h.symm⟩
            · exact .inl h
          · exact .inr ⟨i, by omega, by omega, h⟩
        · intro o ho
          exact ⟨first, hfirst.trans (hstamp.2 o ho), heq⟩
        · intro i hlo hhi hi
          rcases Nat.eq_or_lt_of_le hlo with rfl | hlt
          · exact ⟨first, hfirst.trans hstamp.1, heq⟩
          · exact hcell i hlt (by omega) hi

/-- An outstanding packet of an open association has run out its timeout. -/
def OverdueOut (timers : FlowTimers) (rtt : RttEstimate) (now : ℕ) (flow : OutAssociation) : Prop :=
  flow.life = .opened ∧ ∃ i < flow.inflightCap, (flow.inFlight i).Outstanding ∧
    ((flow.inFlight i).sentAtMicros = 0 ∨
      (flow.inFlight i).sentAtMicros + OutAssociation.probeTimeout timers rtt now ≤ now)

theorem consider_le_iff (soonest deadline now : ℕ) :
    consider soonest deadline ≤ now ↔ soonest ≤ now ∨ deadline ≤ now := by
  unfold consider
  split <;> omega

section
variable (timers : FlowTimers)

theorem considerOut_le_iff (rtt : RttEstimate) (now soonest : ℕ)
    {flow : OutAssociation} (hcounted : flow.Counted) :
    considerOut timers rtt now soonest flow ≤ now ↔
      soonest ≤ now ∨ OverdueOut timers rtt now flow := by
  obtain ⟨hfrom, -, hcell⟩ := oldestStamp_spec flow.inFlight flow.inflightCap 0 none
  rw [considerOut]
  by_cases hlife : flow.life = .opened ∧ 0 < flow.unresolved
  · rw [if_pos hlife]
    cases hold : oldestStamp flow.inFlight flow.inflightCap 0 none with
    | none =>
      refine ⟨.inl, fun h => h.resolve_right ?_⟩
      rintro ⟨-, i, hi, hopen, -⟩
      obtain ⟨o, -, ho⟩ := hcell i (Nat.zero_le i) (by omega) hopen
      rw [hold] at ho
      cases ho
    | some oldest =>
      rw [consider_le_iff, deadlineTimeout_eq]
      refine or_congr Iff.rfl ⟨?_, ?_⟩
      · intro hdue
        rcases hfrom oldest hold with h | ⟨i, -, hi, hopen, hstamp⟩
        · cases h
        · refine ⟨hlife.1, i, by omega, hopen, ?_⟩
          rw [hstamp]
          split_ifs at hdue with hzero
          · exact .inl hzero
          · exact .inr hdue
      · rintro ⟨-, i, hi, hopen, hdue⟩
        obtain ⟨o, hle, ho⟩ := hcell i (Nat.zero_le i) (by omega) hopen
        rw [hold, Option.some.injEq] at ho
        split_ifs with hzero
        · exact le_rfl
        · omega
  · rw [if_neg hlife]
    refine ⟨.inl, fun h => h.resolve_right ?_⟩
    rintro ⟨hopened, i, hi, hopen, -⟩
    exact hlife ⟨hopened, hcounted.pos hi hopen⟩

theorem foldl_considerOut_le_iff (rtt : RttEstimate) (now soonest : ℕ)
    {outs : List OutAssociation} (hcounted : ∀ flow ∈ outs, flow.Counted) :
    outs.foldl (considerOut timers rtt now) soonest ≤ now ↔
      soonest ≤ now ∨ ∃ flow ∈ outs, OverdueOut timers rtt now flow := by
  induction outs generalizing soonest with
  | nil => simp
  | cons flow outs ih =>
    rw [List.foldl_cons, ih _ fun f hf => hcounted f (List.mem_cons_of_mem flow hf),
      considerOut_le_iff timers rtt now soonest (hcounted flow List.mem_cons_self)]
    simp only [List.mem_cons, exists_eq_or_imp, or_assoc]

theorem overdue_of_retransmit {flow : OutAssociation} {peer : PeerBudget}
    {now i : ℕ} (hopened : flow.life = .opened) (hi : i < flow.inflightCap)
    (hopen : (flow.inFlight i).Outstanding)
    (hacts : (flow.retransmitInflight timers peer now .zero).flow.inFlight i ≠ flow.inFlight i) :
    OverdueOut timers peer.rtt now flow := by
  have hpos := probeTimeout_pos timers peer.rtt now
  have hdue : OutAssociation.probeTimeout timers peer.rtt now ≤
      elapsed now (flow.inFlight i).sentAtMicros := by
    rw [OutAssociation.retransmitInflight] at hacts
    split_ifs at hacts with hdead
    · exact absurd rfl hacts
    · dsimp only at hacts
      rw [scan_cell, if_pos hi] at hacts
      have hturn := OutAssociation.retransmitCell_tickTurn timers flow.mode now
        (OutAssociation.probeTimeout timers peer.rtt now) (flow.inFlight i)
        (scan (OutAssociation.retransmitCell timers flow.mode now
          (OutAssociation.probeTimeout timers peer.rtt now)) i flow.inFlight
          ⟨⟨flow.unresolved, .zero, []⟩, peer, []⟩).2
      generalize OutAssociation.retransmitCell timers flow.mode now _ (flow.inFlight i) _ = r
        at hturn hacts
      cases hturn with
      | kept => exact absurd rfl hacts
      | reoffered _ _ _ _ hacked =>
        rw [hopen.2] at hacked
        cases hacked
      | probed _ _ _ _ hdue => exact hdue
      | timedOut _ hdue => exact hdue
  rw [elapsed_eq] at hdue
  exact ⟨hopened, i, hi, hopen, .inr (by omega)⟩

/-! ## Both sides -/

theorem foldl_considerIn_le_iff (now soonest : ℕ) (ins : List InAssociation) :
    ins.foldl (considerIn timers) soonest ≤ now ↔
      soonest ≤ now ∨ ∃ flow ∈ ins, 0 < flow.newSinceFlush ∧
        flow.ackArmedMicros + timers.ackDelayMicros ≤ now := by
  induction ins generalizing soonest with
  | nil => simp
  | cons flow ins ih =>
    have hone : considerIn timers soonest flow ≤ now ↔ soonest ≤ now ∨
        0 < flow.newSinceFlush ∧ flow.ackArmedMicros + timers.ackDelayMicros ≤ now := by
      unfold considerIn
      split_ifs with howed
      · rw [consider_le_iff]
        simp [howed]
      · simp [howed]
    rw [List.foldl_cons, ih, hone]
    simp only [List.mem_cons, exists_eq_or_imp, or_assoc]

end

/-- A timer of the peer has run out: the delay of an owed acknowledgement, or the timeout of an
outstanding packet. -/
def TimerPassed (timers : FlowTimers) (rtt : RttEstimate) (ins : List InAssociation)
    (outs : List OutAssociation) (now : ℕ) : Prop :=
  (∃ flow ∈ ins, 0 < flow.newSinceFlush ∧ flow.ackArmedMicros + timers.ackDelayMicros ≤ now) ∨
    ∃ flow ∈ outs, OverdueOut timers rtt now flow

theorem nextDeadline_le_iff (timers : FlowTimers) (rtt : RttEstimate) (ins : List InAssociation)
    {outs : List OutAssociation} {now : ℕ} (hcounted : ∀ flow ∈ outs, flow.Counted)
    (hnow : now < uint64Max) :
    nextDeadline timers rtt ins outs now ≤ now ↔ TimerPassed timers rtt ins outs now := by
  rw [nextDeadline, foldl_considerOut_le_iff timers rtt now _ hcounted, foldl_considerIn_le_iff]
  rw [TimerPassed, or_iff_right (Nat.not_le.mpr hnow)]

/-- An `Update` now would flush acknowledgements, or resend or time out an outstanding packet
of an open association. -/
def UpdateActs (timers : FlowTimers) (peer : PeerBudget) (ins : List InAssociation)
    (outs : List OutAssociation) (now : ℕ) : Prop :=
  anyAckDue timers ins now = true ∨
    ∃ flow ∈ outs, flow.life = .opened ∧ ∃ i < flow.inflightCap, (flow.inFlight i).Outstanding ∧
      (flow.retransmitInflight timers peer now .zero).flow.inFlight i ≠ flow.inFlight i

/-- The association as some run of its lifetime leaves it. -/
def Reached (timers : FlowTimers) (flow : OutAssociation) : Prop :=
  ∃ oldEpoch p start events,
    flow = (run (Lifetime.step timers) (Lifetime.created oldEpoch p start) events).assoc

/-- The deadline is never late exactly when no association owes an acknowledgement at once
while every timer of the peer is still running. -/
theorem nextDeadline_not_late_iff (timers : FlowTimers) (peer : PeerBudget)
    (ins : List InAssociation) (outs : List OutAssociation) (now : ℕ)
    (hreached : ∀ flow ∈ outs, Reached timers flow) (hnow : now < uint64Max)
    (harmed : ∀ flow ∈ ins, 0 < flow.newSinceFlush → flow.ackArmedMicros ≤ now) :
    (UpdateActs timers peer ins outs now →
        nextDeadline timers peer.rtt ins outs now ≤ now) ↔
      ((∃ flow ∈ ins, 0 < flow.newSinceFlush ∧ flow.owesAtOnce = true) →
        TimerPassed timers peer.rtt ins outs now) := by
  have hcounted : ∀ flow ∈ outs, flow.Counted := by
    intro flow hflow
    obtain ⟨oldEpoch, p, start, events, rfl⟩ := hreached flow hflow
    exact Lifetime.counted_run timers oldEpoch p start events
  rw [nextDeadline_le_iff timers peer.rtt ins hcounted hnow]
  constructor
  · rintro hprompt ⟨flow, hflow, howed, honce⟩
    apply hprompt
    left
    rw [anyAckDue, List.any_eq_true]
    exact ⟨flow, hflow, by simp [howed, honce]⟩
  · rintro honce (hdue | ⟨flow, hflow, hopened, i, hi, hopen, hacts⟩)
    · rw [anyAckDue, List.any_eq_true] at hdue
      obtain ⟨flow, hflow, hdue⟩ := hdue
      rw [Bool.and_eq_true, Bool.or_eq_true, decide_eq_true_iff, decide_eq_true_iff] at hdue
      obtain ⟨howed, hreason | hdelay⟩ := hdue
      · exact honce ⟨flow, hflow, howed, hreason⟩
      · have hpast := harmed flow hflow howed
        rw [elapsed_eq] at hdelay
        exact .inl ⟨flow, hflow, howed, by omega⟩
    · exact .inr ⟨flow, hflow, overdue_of_retransmit timers hopened hi hopen hacts⟩

/-- One packet out for longer than its timeout, and one arrival that may wait for its delay. -/
theorem nextDeadline_not_late_overdue :
    let timers : FlowTimers := ⟨50000, 5000, 5000000⟩
    let peer : PeerBudget := ⟨⟨20000, 1000, 5000, 20000, 1000⟩, 100000, 0, 0, 0, 0, 100000, 0⟩
    let out := (run (Lifetime.step timers)
      (Lifetime.created 0 ⟨0, ⟨[], 0, 0⟩, ⟨[]⟩, 7, .reliableOrdered, 1, 4⟩ 1000)
      [(0, .send 0 100 true peer)]).assoc
    let owing : InAssociation := { InAssociation.raw with newSinceFlush := 1, ackArmedMicros := 99000 }
    UpdateActs timers peer [owing] [out] 100000 ∧
      nextDeadline timers peer.rtt [owing] [out] 100000 ≤ 100000 := by
  intro timers peer out owing
  have hacts : UpdateActs timers peer [owing] [out] 100000 := by
    right
    refine ⟨out, List.mem_singleton_self out, by decide, 1, by decide +kernel, by decide +kernel, ?_⟩
    decide +kernel
  refine ⟨hacts, (nextDeadline_not_late_iff timers peer [owing] [out] 100000 ?_ (by decide)
    (by decide)).mpr ?_ hacts⟩
  · intro flow hflow
    rw [List.mem_singleton] at hflow
    exact ⟨_, _, _, _, hflow⟩
  · rintro ⟨flow, hflow, -, honce⟩
    rw [List.mem_singleton] at hflow
    have hwaits : owing.owesAtOnce = false := by decide
    rw [hflow, hwaits] at honce
    cases honce

/-- Two packets arrived half a millisecond ago: the acknowledgement goes out at the next
`Update`, and the caller is told to sleep until its delay has passed. -/
theorem nextDeadline_late :
    let timers : FlowTimers := ⟨50000, 5000, 5000000⟩
    let peer : PeerBudget := ⟨⟨20000, 1000, 5000, 20000, 1000⟩, 100000, 0, 0, 0, 0, 100000, 0⟩
    let owing : InAssociation := { InAssociation.raw with newSinceFlush := 2, ackArmedMicros := 1000 }
    anyAckDue timers [owing] 1500 = true ∧ nextDeadline timers peer.rtt [owing] [] 1500 = 6000 := by
  decide +kernel

end BcpFlux.Flow
