import BcpFlux.Flow.Transmissions
import BcpFlux.Socket.Congestion
import BcpFlux.Transfer.Verdicts

/-! # The path to one peer

Everything that meets on one congestion controller: the associations and the transfers that
send to a peer, the acknowledgements that come back, and the clock.  An event does its work on
the tables first and may report to the controller at the end, as the handlers of the socket do.
A report carries, beside the feedback, the packets it names as lost.
-/

namespace BcpFlux.Socket
open Library Wire Peer BcpFlux.Flow BcpFlux.Transfer

structure Path where
  ctl : Controller
  flows : List OutAssociation
  transfers : List OutTransfer
  clock : ℕ

/-- Flows and transfers are named by their place in the lists.  An acknowledgement of flows
names the association each of its entries was found for. -/
inductive PathEvent where
  | sessionStarted
  | openFlow (oldEpoch : ℕ) (p : OutAssocParams)
  | send (i packetSlot wireSize : ℕ) (flying : Bool)
  | drain (i candidateEpoch candidateSlot : ℕ)
  | flowAck (acks : List (ℕ × AckEntry))
  | tick (i : ℕ)
  | refundResends (i : ℕ) (seqs : List ℕ)
  /-- Closed by the application, or rejected by the far side. -/
  | closeFlow (i : ℕ) (life : FlowLifecycle)
  | openTransfer (peerSlot : ℕ) (peerAddr : Address) (transferId : ℕ) (source : ℕ → UInt8)
      (length : ℕ)
  | transferPass (k queued : ℕ)
  | transferAck (k recvNext : ℕ) (bitmap : List Bool)
  | transferReject (k : ℕ)

/-- Feedback for the controller, with the packets it names as lost: cells of an association, and
sequences of a transfer. -/
structure Report where
  delta : CongestionDelta
  cells : List (ℕ × ℕ)
  seqs : List (ℕ × ℕ)

/-- The feedback of `Transfer_Ack`, with the peer's epoch at that moment. -/
def transferDelta (length : ℕ) (report : AckReport) (epoch : ℕ) : CongestionDelta where
  resolvedBytes := (seqCharges length report.freed).1
  resolvedPackets := (seqCharges length report.freed).2
  ackedBytes := (seqCharges length report.freed).1
  rttSampleMicros := report.rttSample
  ackDelayMicros := 0
  sawLoss := decide (report.lostBytes ≠ 0)
  lostDeclaredBytes := report.lostBytes
  lostEpoch := if report.lostBytes ≠ 0 then epoch else 0
  sawProbe := false

namespace Path

def registered (now : ℕ) : Path := ⟨.registered, [], [], now⟩

def setBudget (s : Path) (budget : PeerBudget) : Path :=
  { s with ctl := { s.ctl with toPeerBudget := budget } }

def setFlow (s : Path) (i : ℕ) (flow : OutAssociation) : Path :=
  { s with flows := s.flows.set i flow }

def setTransfer (s : Path) (k : ℕ) (out : OutTransfer) : Path :=
  { s with transfers := s.transfers.set k out }

/-- What the entries of one `Flow_Ack` have come to so far. -/
structure AckSweep where
  flows : List OutAssociation
  delta : CongestionDelta
  cells : List (ℕ × ℕ)

def lostCells (i : ℕ) (flow flow' : OutAssociation) : List (ℕ × ℕ) :=
  ((List.range flow.inflightCap).filter fun j =>
    decide (OutAssociation.LostNow flow flow' j)).map fun j => (i, j)

def timedOutCells (i : ℕ) (flow flow' : OutAssociation) : List (ℕ × ℕ) :=
  ((List.range flow.inflightCap).filter fun j =>
    decide ((flow.inFlight j).Outstanding ∧ (flow'.inFlight j).seq = 0)).map fun j => (i, j)

def sweepEntry (timers : FlowTimers) (rtt : RttEstimate) (now : ℕ) (acc : AckSweep)
    (a : ℕ × AckEntry) : AckSweep :=
  match acc.flows[a.1]? with
  | none => acc
  | some flow =>
    let r := flow.applyAck timers rtt a.2 now acc.delta
    ⟨acc.flows.set a.1 r.1, r.2.1, acc.cells ++ lostCells a.1 flow r.1⟩

def sweep (timers : FlowTimers) (s : Path) (acks : List (ℕ × AckEntry)) : AckSweep :=
  acks.foldl (sweepEntry timers s.ctl.rtt s.clock) ⟨s.flows, .zero, []⟩

def tearDownFlow (s : Path) (i : ℕ) (flow : OutAssociation) (life : FlowLifecycle) : Path :=
  (s.setFlow i (flow.tearDown life)).setBudget (refund s.ctl.toPeerBudget flow.owes)

section Work
variable (lim : Limits) (stall : ℕ)

/-- The timers the flow table of the socket was initialised with. -/
def timers : FlowTimers := ⟨lim.retryIntervalMicros, lim.ackDelayMicros, stall⟩

def times : Intervals := ⟨lim.retryIntervalMicros, lim.ackDelayMicros⟩

/-- `UpdateOutFlow` for one association. -/
def updateOutFlow (s : Path) (i : ℕ) (flow : OutAssociation) : Path × Option Report :=
  if flow.life = .opened then
    let r := flow.retransmitInflight (timers lim stall) s.ctl.toPeerBudget s.clock .zero
    if r.assocDead then (s.tearDownFlow i flow .failed, none)
    else
      let hasDelta := decide (r.delta.resolvedBytes ≠ 0) || r.delta.sawLoss
      ((s.setFlow i r.flow).setBudget r.peer,
        if hasDelta || !r.resends.isEmpty
        then some ⟨r.delta, timedOutCells i flow r.flow, []⟩ else none)
  else (s, none)

/-- `Transfer_Ack` once the transfer is found. -/
def transferAcked (s : Path) (k : ℕ) (out : OutTransfer) (recvNext : ℕ) (bitmap : List Bool) :
    Path × Option Report :=
  let r := out.onAck recvNext bitmap s.clock
  let missing := (out.applyAck (min recvNext out.packetCount) bitmap s.clock).1.missingSeqs
  (s.setTransfer k r.1,
    if r.2.1 = .none then none
    else some ⟨transferDelta out.length r.2.1 s.ctl.congestionEpoch, [],
      missing.map fun seq => (k, seq)⟩)

/-- What an event does to the tables, and what it reports. -/
def work (s : Path) : PathEvent → Path × Option Report
  | .sessionStarted => ({ s with ctl := s.ctl.markAcked s.clock }, none)
  | .openFlow oldEpoch p => ({ s with flows := s.flows ++ [resetOutAssoc oldEpoch p s.clock] }, none)
  | .send i packetSlot wireSize flying =>
    match s.flows[i]? with
    | none => (s, none)
    | some flow =>
      let r := flow.admitOut s.ctl.toPeerBudget packetSlot wireSize flying s.clock
      ((s.setFlow i r.2.1).setBudget r.2.2.1, none)
  | .drain i candidateEpoch candidateSlot =>
    match s.flows[i]? with
    | none => (s, none)
    | some flow =>
      let r := flow.claimWaiting s.ctl.toPeerBudget candidateEpoch candidateSlot s.clock
      ((s.setFlow i r.2.1).setBudget r.2.2, none)
  | .flowAck acks =>
    let r := s.sweep (timers lim stall) acks
    ({ s with flows := r.flows, ctl := s.ctl.markAcked s.clock }, some ⟨r.delta, r.cells, []⟩)
  | .tick i =>
    match s.flows[i]? with
    | none => (s, none)
    | some flow => s.updateOutFlow lim stall i flow
  | .refundResends i seqs =>
    match s.flows[i]? with
    | none => (s, none)
    | some flow => (s.setFlow i (flow.refundResendAttempts seqs), none)
  | .closeFlow i life =>
    match s.flows[i]? with
    | none => (s, none)
    | some flow => (s.tearDownFlow i flow life, none)
  | .openTransfer peerSlot peerAddr transferId source length =>
    ({ s with transfers := s.transfers ++
        [OutTransfer.start peerSlot peerAddr transferId source length] }, none)
  | .transferPass k queued =>
    match s.transfers[k]? with
    | none => (s, none)
    | some out =>
      let turn := (Turn.fresh s.ctl.toPeerBudget out queued).run (times lim) s.clock
      ((s.setTransfer k turn.out).setBudget turn.peer, none)
  | .transferAck k recvNext bitmap =>
    match s.transfers[k]? with
    | none => (s, none)
    | some out => s.transferAcked k out recvNext bitmap
  | .transferReject k =>
    match s.transfers[k]? with
    | none => (s, none)
    | some out =>
      ((s.setTransfer k out.onRefused.1).setBudget
        (refund s.ctl.toPeerBudget (seqCharges out.length out.onRefused.2.1)), none)

def wait (s : Path) (micros : ℕ) : Path := { s with clock := s.clock + micros }

def react (s : Path) : Option Report → Path
  | none => s
  | some report =>
    { s with ctl := (s.ctl.applyCongestion lim report.delta s.clock).peer }

/-- The controller at the moment of the report, and the report. -/
def outcome (s : Path) (e : ℕ × PathEvent) : Path × Option Report :=
  (s.wait e.1).work lim stall e.2

def step (s : Path) (e : ℕ × PathEvent) : Path :=
  (s.outcome lim stall e).1.react lim (s.outcome lim stall e).2

end Work

/-! ## What the work leaves to the controller -/

/-- The fields of a budget that only the controller and the acknowledgements write. -/
def steady (b : PeerBudget) : RttEstimate × ℕ × ℕ := (b.rtt, b.congestionBudget, b.congestionEpoch)

section Steady
variable (b : PeerBudget) (now wireSize : ℕ)

@[simp] theorem pacingAllows_steady : steady (b.pacingAllows now wireSize).1 = steady b := by
  unfold PeerBudget.pacingAllows PeerBudget.refillPacing
  dsimp only
  split_ifs <;> rfl

@[simp] theorem transferPacingAllows_steady :
    steady (transferPacingAllows b now wireSize).1 = steady b := by
  unfold transferPacingAllows refillTransferPacing
  dsimp only
  split_ifs <;> rfl

@[simp] theorem refund_steady (amount : ℕ × ℕ) : steady (refund b amount) = steady b := rfl

theorem paced_steady {now : ℕ} {peer peer' : PeerBudget} (h : Flow.Paced now peer peer') :
    steady peer' = steady peer := by
  cases h with
  | unasked => rfl
  | asked wireSize | spent wireSize => exact pacingAllows_steady peer now wireSize

theorem admitOut_steady (flow : OutAssociation) (packetSlot : ℕ) (flying : Bool) :
    steady (flow.admitOut b packetSlot wireSize flying now).2.2.1 = steady b := by
  have hadmitted := flow.admitOut_admission b packetSlot wireSize flying now
  generalize flow.admitOut b packetSlot wireSize flying now = r at hadmitted ⊢
  cases hadmitted with
  | refused _ _ hpeer | queued _ hpeer | evicted _ hpeer => exact paced_steady hpeer
  | stamped => exact pacingAllows_steady b now wireSize

theorem claimWaiting_steady (flow : OutAssociation) (candidateEpoch candidateSlot : ℕ) :
    steady (flow.claimWaiting b candidateEpoch candidateSlot now).2.2 = steady b := by
  have hclaim := flow.claimWaiting_claim b candidateEpoch candidateSlot now
  generalize flow.claimWaiting b candidateEpoch candidateSlot now = r at hclaim ⊢
  cases hclaim with
  | kept _ hpeer => exact paced_steady hpeer
  | stamped head => exact pacingAllows_steady b now head.wireSize

theorem retransmitInflight_steady (timers : FlowTimers) (flow : OutAssociation) :
    steady (flow.retransmitInflight timers b now .zero).peer = steady b := by
  obtain ⟨-, -, acc, hacc, -, hpeer, -⟩ := flow.retransmitInflight_turns timers b now .zero
    (P := fun _ acc => steady acc.peer = steady b) rfl (by
      rintro i _ acc r hturn - hacc
      cases hturn with
      | kept _ hpeer | reoffered _ _ hpeer | probed _ _ hpeer =>
        exact (paced_steady hpeer).trans hacc
      | timedOut => exact hacc)
  rw [hpeer, hacc]

theorem offer_steady (t : Turn) (seq : ℕ) : steady (t.offer now seq).peer = steady t.peer := by
  have hpaced := transferPacingAllows_steady t.peer now (wireSizeForSeq t.out.length seq)
  unfold Turn.offer
  dsimp only
  split_ifs
  · exact hpaced
  · exact hpaced
  · exact hpaced
  · unfold Turn.send
    dsimp only
    split_ifs <;> exact hpaced

theorem attempt_steady (t : Turn) (rto lossDelay : ℕ) :
    steady (t.attempt now rto lossDelay).peer = steady t.peer := by
  have hpick : (t.pick now rto lossDelay).1.peer = t.peer := by
    unfold Turn.pick
    split <;> rfl
  unfold Turn.attempt
  dsimp only
  split
  · rw [hpick]
  · rw [offer_steady, hpick]

theorem rounds_steady (rto lossDelay left : ℕ) (t : Turn) :
    steady (Turn.rounds now rto lossDelay left t).peer = steady t.peer := by
  induction left generalizing t with
  | zero => rfl
  | succ left ih =>
    rw [Turn.rounds]
    split
    · rfl
    · rw [ih, attempt_steady]

theorem turn_steady (t : Turn) (times : Intervals) :
    steady (t.run times now).peer = steady t.peer := by
  have hpaced := transferPacingAllows_steady t.peer now (transferWireSize transferAnnounceSize)
  unfold Turn.run
  dsimp only
  split_ifs
  · rfl
  · unfold Turn.offerAnnounce
    dsimp only
    split_ifs
    · rfl
    · exact hpaced
    · exact hpaced
    · exact hpaced
  · rfl
  · rfl
  · exact rounds_steady now _ _ packetsPerPass t

end Steady

/-- What the work of an event does to the controller: the send side of the budget changes, and an
acknowledgement or a session restarts the silence. -/
def Worked (s s' : Path) : Prop :=
  s'.clock = s.clock ∧ ∃ b, s'.ctl = { s.ctl with toPeerBudget := b } ∧
    b.congestionBudget = s.ctl.congestionBudget ∧ b.congestionEpoch = s.ctl.congestionEpoch ∧
    (b.rtt = s.ctl.rtt ∨ b.rtt = s.ctl.rtt.markAcked s.clock)

theorem Worked.of_ctl {s s' : Path} (hclock : s'.clock = s.clock) (hctl : s'.ctl = s.ctl) :
    s.Worked s' := ⟨hclock, s.ctl.toPeerBudget, hctl, rfl, rfl, .inl rfl⟩

theorem Worked.of_steady {s s' : Path} {b : PeerBudget} (hclock : s'.clock = s.clock)
    (hctl : s'.ctl = { s.ctl with toPeerBudget := b }) (h : steady b = steady s.ctl.toPeerBudget) :
    s.Worked s' := by
  rw [steady, steady, Prod.mk.injEq, Prod.mk.injEq] at h
  exact ⟨hclock, b, hctl, h.2.1, h.2.2, .inl h.1⟩

theorem Worked.of_markAcked {s s' : Path} (hclock : s'.clock = s.clock)
    (hctl : s'.ctl = s.ctl.markAcked s.clock) : s.Worked s' :=
  ⟨hclock, { s.ctl.toPeerBudget with rtt := s.ctl.rtt.markAcked s.clock }, hctl, rfl, rfl, .inr rfl⟩

theorem updateOutFlow_worked (lim : Limits) (stall : ℕ) (s : Path) (i : ℕ) (flow : OutAssociation) :
    s.Worked (s.updateOutFlow lim stall i flow).1 := by
  rw [updateOutFlow]
  split_ifs with hlife
  · dsimp only
    split_ifs
    · exact .of_steady rfl rfl (refund_steady _ _)
    · exact .of_steady rfl rfl (retransmitInflight_steady _ _ _ _)
    · exact .of_steady rfl rfl (retransmitInflight_steady _ _ _ _)
  · exact .of_ctl rfl rfl

theorem work_worked (lim : Limits) (stall : ℕ) (s : Path) (e : PathEvent) :
    s.Worked (s.work lim stall e).1 := by
  cases e with
  | sessionStarted | flowAck => exact .of_markAcked rfl rfl
  | openFlow | openTransfer => exact .of_ctl rfl rfl
  | send i packetSlot wireSize flying =>
    rw [work]
    cases s.flows[i]? with
    | none => exact .of_ctl rfl rfl
    | some flow => exact .of_steady rfl rfl (admitOut_steady _ _ _ flow packetSlot flying)
  | drain i candidateEpoch candidateSlot =>
    rw [work]
    cases s.flows[i]? with
    | none => exact .of_ctl rfl rfl
    | some flow =>
      exact .of_steady rfl rfl (claimWaiting_steady _ _ flow candidateEpoch candidateSlot)
  | tick i =>
    rw [work]
    cases s.flows[i]? with
    | none => exact .of_ctl rfl rfl
    | some flow => exact updateOutFlow_worked lim stall s i flow
  | refundResends i =>
    rw [work]
    cases s.flows[i]? <;> exact .of_ctl rfl rfl
  | closeFlow i =>
    rw [work]
    cases s.flows[i]? with
    | none => exact .of_ctl rfl rfl
    | some flow => exact .of_steady rfl rfl (refund_steady _ _)
  | transferPass k queued =>
    rw [work]
    cases s.transfers[k]? with
    | none => exact .of_ctl rfl rfl
    | some out => exact .of_steady rfl rfl (turn_steady _ _ _)
  | transferAck k =>
    rw [work]
    cases s.transfers[k]? <;> exact .of_ctl rfl rfl
  | transferReject k =>
    rw [work]
    cases s.transfers[k]? with
    | none => exact .of_ctl rfl rfl
    | some out => exact .of_steady rfl rfl (refund_steady _ _)

theorem react_clock (lim : Limits) (s : Path) (r : Option Report) : (s.react lim r).clock = s.clock := by
  cases r <;> rfl

theorem step_clock (lim : Limits) (stall : ℕ) (s : Path) (e : ℕ × PathEvent) :
    (s.step lim stall e).clock = s.clock + e.1 :=
  (react_clock lim _ _).trans (work_worked lim stall (s.wait e.1) e.2).1

/-! ## Who reports -/

/-- The three handlers that report to the controller. -/
inductive ReportedBy (lim : Limits) (stall : ℕ) (s : Path) : PathEvent → Report → Prop
  | flowAck (acks : List (ℕ × AckEntry)) :
      ReportedBy lim stall s (.flowAck acks) ⟨(s.sweep (timers lim stall) acks).delta,
        (s.sweep (timers lim stall) acks).cells, []⟩
  | tick (i : ℕ) (flow : OutAssociation) (hflow : s.flows[i]? = some flow) :
      ReportedBy lim stall s (.tick i)
        ⟨(flow.retransmitInflight (timers lim stall) s.ctl.toPeerBudget s.clock .zero).delta,
          timedOutCells i flow
            (flow.retransmitInflight (timers lim stall) s.ctl.toPeerBudget s.clock .zero).flow, []⟩
  | transferAck (k recvNext : ℕ) (bitmap : List Bool) (out : OutTransfer)
      (hout : s.transfers[k]? = some out) :
      ReportedBy lim stall s (.transferAck k recvNext bitmap)
        ⟨transferDelta out.length (out.onAck recvNext bitmap s.clock).2.1 s.ctl.congestionEpoch, [],
          ((out.applyAck (min recvNext out.packetCount) bitmap s.clock).1.missingSeqs).map
            fun seq => (k, seq)⟩

theorem work_report {lim : Limits} {stall : ℕ} {s : Path} {e : PathEvent} {report : Report}
    (h : report ∈ (s.work lim stall e).2) : ReportedBy lim stall s e report := by
  cases e with
  | flowAck acks =>
    rw [work, Option.mem_def, Option.some.injEq] at h
    exact h ▸ .flowAck acks
  | tick i =>
    rw [work] at h
    cases hflow : s.flows[i]? with
    | none =>
      rw [hflow] at h
      cases h
    | some flow =>
      rw [hflow] at h
      dsimp only [updateOutFlow] at h
      split_ifs at h
      · cases h
      · rw [Option.mem_def, Option.some.injEq] at h
        exact h ▸ .tick i flow hflow
      · cases h
      · cases h
  | transferAck k recvNext bitmap =>
    rw [work] at h
    cases hout : s.transfers[k]? with
    | none =>
      rw [hout] at h
      cases h
    | some out =>
      rw [hout] at h
      dsimp only [transferAcked] at h
      split_ifs at h
      · cases h
      · rw [Option.mem_def, Option.some.injEq] at h
        exact h ▸ .transferAck k recvNext bitmap out hout
  | sessionStarted => cases h
  | openFlow => cases h
  | openTransfer => cases h
  | send i =>
    rw [work] at h
    cases hflow : s.flows[i]? <;> rw [hflow] at h <;> cases h
  | drain i =>
    rw [work] at h
    cases hflow : s.flows[i]? <;> rw [hflow] at h <;> cases h
  | refundResends i =>
    rw [work] at h
    cases hflow : s.flows[i]? <;> rw [hflow] at h <;> cases h
  | closeFlow i =>
    rw [work] at h
    cases hflow : s.flows[i]? <;> rw [hflow] at h <;> cases h
  | transferPass k =>
    rw [work] at h
    cases hout : s.transfers[k]? <;> rw [hout] at h <;> cases h
  | transferReject k =>
    rw [work] at h
    cases hout : s.transfers[k]? <;> rw [hout] at h <;> cases h

/-! ## Round-trip samples -/

theorem applyCongestion_usable (lim : Limits) (c : Controller) (delta : CongestionDelta) (now : ℕ) :
    (c.applyCongestion lim delta now).usable = true ↔
      delta.rttSampleMicros ≤ rttSampleMaxMicros := by
  have husable : (c.applyCongestion lim delta now).usable =
      ((c.settle delta).foldSample delta now).2 := by
    unfold Controller.applyCongestion
    dsimp only
    split_ifs <;> rfl
  rw [husable, Controller.foldSample, Controller.sample]
  by_cases hnone : delta.rttSampleMicros = 0
  · simp [hnone]
  · by_cases hband : delta.rttSampleMicros ≤ rttSampleMaxMicros
    · simp [Controller.sampleUsable, hnone, hband]
    · simp [Controller.sampleUsable, hnone, hband]

/-- The associations an acknowledgement has been through so far, against those it found. -/
def Aged (flows flows' : List OutAssociation) : Prop :=
  ∀ (i : ℕ) (flow' : OutAssociation), flows'[i]? = some flow' →
    ∃ flow : OutAssociation, flows[i]? = some flow ∧ flow'.inflightCap = flow.inflightCap ∧
      ∀ j, (flow.inFlight j).Ages (flow'.inFlight j)

theorem Aged.refl (flows : List OutAssociation) : Aged flows flows :=
  fun _ flow h => ⟨flow, h, rfl, fun _ => .refl _⟩

theorem Aged.set {flows flows' : List OutAssociation} (h : Aged flows flows') {i : ℕ}
    {flow' flow'' : OutAssociation} (hi : flows'[i]? = some flow')
    (hcap : flow''.inflightCap = flow'.inflightCap)
    (hages : ∀ j, (flow'.inFlight j).Ages (flow''.inFlight j)) :
    Aged flows (flows'.set i flow'') := by
  intro k flowk hk
  rw [List.getElem?_set] at hk
  by_cases hik : i = k
  · subst hik
    have hlt : i < flows'.length := (List.getElem?_eq_some_iff.mp hi).1
    rw [if_pos rfl, if_pos hlt, Option.some.injEq] at hk
    subst hk
    obtain ⟨flow, hflow, hcap', hages'⟩ := h i flow' hi
    exact ⟨flow, hflow, hcap.trans hcap', fun j => (hages' j).trans (hages j)⟩
  · rw [if_neg hik] at hk
    exact h k flowk hk

theorem retransmitInflight_rttSample (timers : FlowTimers) (flow : OutAssociation)
    (peer : PeerBudget) (now : ℕ) :
    (flow.retransmitInflight timers peer now .zero).delta.rttSampleMicros = 0 := by
  obtain ⟨-, -, acc, hacc, hdelta, -⟩ := flow.retransmitInflight_turns timers peer now .zero
    (P := fun _ acc => acc.resolved.delta.rttSampleMicros = 0) rfl (by
      rintro i _ acc r hturn - hacc
      cases hturn with
      | kept | reoffered | probed => exact hacc
      | timedOut hopen =>
        rw [OutAssociation.resolveOutEntry]
        split_ifs <;> exact hacc)
  rw [hdelta, hacc]

/-- An entry of an acknowledgement does not measure a packet that has been out, less the hold,
for longer than a round trip can be. -/
def EntryInBand (now : ℕ) (acc : AckSweep) (a : ℕ × AckEntry) : Prop :=
  ∀ flow ∈ acc.flows[a.1]?, ∀ j < flow.inflightCap, flow.Measures a.2 acc.delta j →
    lessHold (now - (flow.inFlight j).sentAtMicros) a.2.ackDelay ≤ rttSampleMaxMicros

instance (now : ℕ) (acc : AckSweep) (a : ℕ × AckEntry) : Decidable (EntryInBand now acc a) :=
  inferInstanceAs (Decidable (∀ flow ∈ acc.flows[a.1]?, _))

/-- What an acknowledgement of flows measures is in band, entry by entry as the sweep takes them. -/
def SamplesInBand (lim : Limits) (stall : ℕ) (s : Path) (e : ℕ × PathEvent) : Prop :=
  match e.2 with
  | .flowAck acks => Along (sweepEntry (timers lim stall) s.ctl.rtt (s.clock + e.1))
      (EntryInBand (s.clock + e.1)) ⟨s.flows, .zero, []⟩ acks
  | _ => True

instance (lim : Limits) (stall : ℕ) (s : Path) (e : ℕ × PathEvent) :
    Decidable (s.SamplesInBand lim stall e) := by
  unfold SamplesInBand
  split <;> infer_instance

theorem sweepEntry_in_band (timers : FlowTimers) (rtt : RttEstimate) (now : ℕ) (acc : AckSweep)
    (a : ℕ × AckEntry) (hband : EntryInBand now acc a)
    (hacc : acc.delta.rttSampleMicros ≤ rttSampleMaxMicros) :
    (sweepEntry timers rtt now acc a).delta.rttSampleMicros ≤ rttSampleMaxMicros := by
  rw [sweepEntry]
  cases hflow : acc.flows[a.1]? with
  | none => exact hacc
  | some flow =>
    dsimp only
    rcases flow.applyAck_sample timers rtt a.2 now acc.delta with hsame | ⟨j, hj, hmeasures, hage⟩
    · exact hsame ▸ hacc
    · rw [hage]
      exact (min_le_left _ _).trans (hband flow hflow j hj hmeasures)

/-- What the assertion on the sample sees in the call an event makes, if it makes one. -/
def sampleAccepted (lim : Limits) (stall : ℕ) (s : Path) (e : ℕ × PathEvent) : Option Bool :=
  (s.outcome lim stall e).2.map fun report =>
    ((s.outcome lim stall e).1.ctl.applyCongestion lim report.delta
      (s.outcome lim stall e).1.clock).usable

/-- What an event reports as a round trip is in band, if its acknowledgements are. -/
theorem report_in_band (lim : Limits) (stall : ℕ) (s : Path) (e : ℕ × PathEvent)
    (hband : s.SamplesInBand lim stall e) :
    ∀ report ∈ (s.outcome lim stall e).2, report.delta.rttSampleMicros ≤ rttSampleMaxMicros := by
  obtain ⟨micros, event⟩ := e
  intro report hreport
  cases work_report hreport with
  | flowAck acks =>
    exact run_invariant (sweepEntry (timers lim stall) s.ctl.rtt (s.clock + micros))
      (fun acc => acc.delta.rttSampleMicros ≤ rttSampleMaxMicros) (EntryInBand (s.clock + micros))
      (sweepEntry_in_band _ _ _) (Nat.zero_le _) hband
  | tick i flow hflow =>
    rw [retransmitInflight_rttSample]
    exact Nat.zero_le _
  | transferAck k recvNext bitmap out hout =>
    exact (OutTransfer.onAck_rttSample_lt out recvNext bitmap _).le

/-- In every run whose acknowledgements of flows measure no packet past the band, every
sample that reaches the controller is accepted; those of transfers always are. -/
theorem reported_samples_accepted (lim : Limits) (stall start : ℕ) (events : List (ℕ × PathEvent))
    (h : Along (step lim stall) (SamplesInBand lim stall) (registered start) events) :
    Along (step lim stall) (fun s e => s.sampleAccepted lim stall e ≠ some false)
      (registered start) events := by
  refine along_mono (step lim stall) h ?_
  intro s e hband hrefused
  rw [sampleAccepted, Option.map_eq_some_iff] at hrefused
  obtain ⟨report, hreport, hunusable⟩ := hrefused
  have husable := (applyCongestion_usable lim (s.outcome lim stall e).1.ctl report.delta
    (s.outcome lim stall e).1.clock).mpr (report_in_band lim stall s e hband report hreport)
  rw [husable] at hunusable
  cases hunusable

/-- A packet is out for eleven seconds when another leaves; forty milliseconds later one
acknowledgement covers both and measures the second. -/
theorem reported_samples_accepted_prompt :
    let lim : Limits := ⟨2400, 1228800, 50000, 5000, 0⟩
    let before : List (ℕ × PathEvent) := [(0, .sessionStarted),
      (0, .openFlow 0 ⟨0, ⟨[], 0, 0⟩, ⟨[]⟩, 7, .reliableOrdered, 1, 4⟩), (100, .send 0 0 100 true),
      (11000000, .send 0 1 100 true)]
    let reply : ℕ × PathEvent := (40000, .flowAck [(0, ⟨7, 1, 3, 3000, []⟩)])
    Along (step lim 5000000) (fun s e => s.sampleAccepted lim 5000000 e ≠ some false)
        (registered 1000000) (before ++ [reply]) ∧
      (run (step lim 5000000) (registered 1000000) before).sampleAccepted lim 5000000 reply =
        some true := by
  intro lim before reply
  refine ⟨reported_samples_accepted lim 5000000 1000000 (before ++ [reply]) ?_, ?_⟩
  · decide +kernel
  · decide +kernel

/-- The process pauses for eleven seconds between the send and the reply. -/
theorem reported_sample_refused :
    let lim : Limits := ⟨2400, 1228800, 50000, 5000, 0⟩
    (run (step lim 5000000) (registered 1000000) [(0, .sessionStarted),
      (0, .openFlow 0 ⟨0, ⟨[], 0, 0⟩, ⟨[]⟩, 7, .reliableOrdered, 1, 4⟩),
      (100, .send 0 0 100 true)]).sampleAccepted lim 5000000
        (11000000, .flowAck [(0, ⟨7, 1, 2, 3000, []⟩)]) = some false := by
  decide +kernel

end Path

end BcpFlux.Socket
