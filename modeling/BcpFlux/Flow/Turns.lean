import BcpFlux.Flow.Outbound

/-! # The turns of an association

What one call of `AdmitOut` or `ClaimWaiting`, and one turn of each loop of `flow_table.cpp` over
the in-flight ring, can do: every turn leaves a cell alone or does one of a few things to it, for
reasons that can be read off the cell.  What holds of an association is proved over these cases.
-/

namespace BcpFlux.Flow
open Library Peer

/-- The peer after one pacing question, if one was asked. -/
inductive Paced (now : ℕ) (peer : PeerBudget) : PeerBudget → Prop
  | unasked : Paced now peer peer
  | asked (wireSize : ℕ) : Paced now peer (peer.pacingAllows now wireSize).1
  | spent (wireSize : ℕ) :
      Paced now peer ((peer.pacingAllows now wireSize).1.spendPacing wireSize)

namespace InFlightEntry

/-- Sent or waiting to be sent, and not acknowledged. -/
def Outstanding (e : InFlightEntry) : Prop := e.seq ≠ 0 ∧ e.acked = false

instance (e : InFlightEntry) : Decidable e.Outstanding := inferInstanceAs (Decidable (_ ∧ _))

def probed (now : ℕ) (e : InFlightEntry) : InFlightEntry :=
  if e.freeResend then { e with sentAtMicros := now, freeResend := false }
  else { e with sentAtMicros := now, retries := min (e.retries + 1) uint8Max }

def judgedLost (e : InFlightEntry) : InFlightEntry :=
  { e with lostByAck := true, freeResend := true, sentAtMicros := 0 }

section
variable (now : ℕ) (e : InFlightEntry)

@[simp] theorem probed_seq : (e.probed now).seq = e.seq := by
  unfold probed
  split <;> rfl

theorem probed_packetSlot :
    (e.probed now).packetSlot = e.packetSlot := by
  unfold probed
  split <;> rfl

@[simp] theorem probed_lostByAck :
    (e.probed now).lostByAck = e.lostByAck := by
  unfold probed
  split <;> rfl

end

end InFlightEntry

namespace OutAssociation

/-! ## Admission -/

theorem canSend_cell {flow : OutAssociation} {peer : PeerBudget} {wireSize : ℕ} {windowed : Bool}
    (h : flow.canSend peer wireSize windowed = true) :
    (flow.inFlight (slot flow.inflightCap flow.nextSeq)).seq = 0 := by
  rw [canSend] at h
  split_ifs at h
  simpa using h

/-- An answer of `AdmitOut`: refused as it is, stamped past an empty queue once there is room and
the clock allows it, or queued, on an unreliable flow in the place of the oldest packet. -/
inductive Admission (flow : OutAssociation) (peer : PeerBudget) (packetSlot wireSize : ℕ)
    (flying : Bool) (now : ℕ) : SendAdmission × OutAssociation × PeerBudget × List ℕ → Prop
  | refused (verdict : SendAdmission) (peer' : PeerBudget) (hpeer : Paced now peer peer')
      (hsent : verdict ≠ .sent) (hqueued : verdict ≠ .queued)
      (hdropped : verdict = .dropped → flow.mode = .unreliable) :
      Admission flow peer packetSlot wireSize flying now (verdict, flow, peer', [])
  | stamped (hlife : flow.life = .opened) (hwaiting : flow.waiting = [])
      (hroom : flow.canSend peer wireSize (!decide (flow.mode = .unreliable)) = true)
      (hclock : (peer.pacingAllows now wireSize).2 = true) :
      Admission flow peer packetSlot wireSize flying now (.sent,
        (flow.stamp (peer.pacingAllows now wireSize).1
          (if flow.mode = .unreliable then none else some packetSlot) wireSize flying now).1,
        (flow.stamp (peer.pacingAllows now wireSize).1
          (if flow.mode = .unreliable then none else some packetSlot) wireSize flying now).2, [])
  | queued (peer' : PeerBudget) (hpeer : Paced now peer peer') (hlife : flow.life = .opened)
      (hshut : (decide (flow.waiting = []) && flow.canSend peer wireSize
        (!decide (flow.mode = .unreliable)) && (peer.pacingAllows now wireSize).2) = false)
      (hroom : flow.waiting.length < flow.waitingCap) :
      Admission flow peer packetSlot wireSize flying now
        (.queued, flow.enqueueWaiting packetSlot wireSize now, peer', [])
  | evicted (peer' : PeerBudget) (hpeer : Paced now peer peer') (hlife : flow.life = .opened)
      (hshut : (decide (flow.waiting = []) && flow.canSend peer wireSize
        (!decide (flow.mode = .unreliable)) && (peer.pacingAllows now wireSize).2) = false)
      (hmode : flow.mode = .unreliable) (oldest : WaitingEntry) (rest : List WaitingEntry)
      (hwaiting : flow.waiting = oldest :: rest) :
      Admission flow peer packetSlot wireSize flying now
        (.queued, ({ flow with waiting := rest }).enqueueWaiting packetSlot wireSize now, peer',
          [oldest.packetSlot])

theorem admitOut_admission (flow : OutAssociation) (peer : PeerBudget) (packetSlot wireSize : ℕ)
    (flying : Bool) (now : ℕ) :
    Admission flow peer packetSlot wireSize flying now
      (flow.admitOut peer packetSlot wireSize flying now) := by
  rw [admitOut]
  by_cases hlife : flow.life = .opened
  · rw [if_neg (not_not.mpr hlife)]
    dsimp only
    -- the clock is asked only once the gate has passed
    have hgate : ∀ gate : Bool, ∃ paced : PeerBudget × Bool,
        (if gate then peer.pacingAllows now wireSize else (peer, false)) = paced ∧
        Paced now peer paced.1 ∧
        (paced.2 = true → gate = true ∧ paced = peer.pacingAllows now wireSize) ∧
        (¬ paced.2 = true → (gate && (peer.pacingAllows now wireSize).2) = false) := by
      intro gate
      cases gate with
      | false => exact ⟨_, rfl, .unasked, fun h => (nomatch h), fun _ => rfl⟩
      | true => exact ⟨_, rfl, .asked wireSize, fun _ => ⟨rfl, rfl⟩, fun h => by simpa using h⟩
    obtain ⟨paced, heq, hpeer, hopen, hshut⟩ := hgate (decide (flow.waiting = []) &&
      flow.canSend peer wireSize (!decide (flow.mode = .unreliable)))
    rw [heq]
    by_cases hgo : paced.2 = true
    · obtain ⟨hpass, rfl⟩ := hopen hgo
      rw [Bool.and_eq_true, decide_eq_true_eq] at hpass
      simp only [if_pos hgo, decide_eq_true_eq]
      exact .stamped hlife hpass.1 hpass.2 hgo
    · rw [if_neg hgo]
      split_ifs with hroom hmode
      · exact .queued _ hpeer hlife (hshut hgo) hroom
      · exact .refused _ _ hpeer (by simp) (by simp) (by simp)
      · have hunreliable : flow.mode = .unreliable := by simpa using hmode
        split
        · exact .refused _ _ hpeer (by simp) (by simp) fun _ => hunreliable
        · exact .evicted _ hpeer hlife (hshut hgo) hunreliable _ _ (by assumption)
  · rw [if_pos hlife]
    exact .refused _ _ .unasked (by simp) (by simp) (by simp)

/-- An answer of `ClaimWaiting`: the head of the queue is stamped, or nothing changes. -/
inductive Claim (flow : OutAssociation) (peer : PeerBudget) (candidateSlot now : ℕ) :
    Bool × OutAssociation × PeerBudget → Prop
  | kept (peer' : PeerBudget) (hpeer : Paced now peer peer') :
      Claim flow peer candidateSlot now (false, flow, peer')
  | stamped (head : WaitingEntry) (rest : List WaitingEntry)
      (hwaiting : flow.waiting = head :: rest) (hhead : head.packetSlot = candidateSlot)
      (hroom : flow.canSend peer head.wireSize (!decide (flow.mode = .unreliable)) = true) :
      Claim flow peer candidateSlot now (true,
        (({ flow with waiting := rest }).stamp (peer.pacingAllows now head.wireSize).1
          (if flow.mode = FlowMode.unreliable then none else some candidateSlot) head.wireSize
          true now).1,
        (({ flow with waiting := rest }).stamp (peer.pacingAllows now head.wireSize).1
          (if flow.mode = FlowMode.unreliable then none else some candidateSlot) head.wireSize
          true now).2)

theorem claimWaiting_claim (flow : OutAssociation) (peer : PeerBudget)
    (candidateEpoch candidateSlot now : ℕ) :
    Claim flow peer candidateSlot now
      (flow.claimWaiting peer candidateEpoch candidateSlot now) := by
  rw [claimWaiting]
  by_cases hlive : flow.epoch = candidateEpoch ∧ flow.life = .opened
  · rw [if_pos hlive]
    rcases hwaiting : flow.waiting with _ | ⟨head, rest⟩
    · exact .kept peer .unasked
    · dsimp only
      by_cases hhead : head.packetSlot = candidateSlot ∧
          flow.canSend peer head.wireSize (!decide (flow.mode = .unreliable)) = true
      · rw [if_pos hhead]
        split
        · simp only [decide_eq_true_eq, hhead.1]
          exact .stamped head rest hwaiting hhead.1 hhead.2
        · exact .kept _ (.asked head.wireSize)
      · rw [if_neg hhead]
        exact .kept peer .unasked
  · rw [if_neg hlive]
    exact .kept peer .unasked

/-! ## One turn of each loop -/

/-- What `ResolveOutEntry` does to a cell: nothing to one that is free or acknowledged, and an
acknowledged cell of an ordered flow keeps its copy. -/
inductive Resolution (mode : FlowMode) (acked : Bool) (e : InFlightEntry) (acc : Resolved) :
    InFlightEntry × Resolved → Prop
  | idle (hidle : ¬ e.Outstanding) : Resolution mode acked e acc (e, acc)
  | kept (hopen : e.Outstanding) (hmode : isOrdered mode = true) (delta : CongestionDelta)
      (hbytes : delta.resolvedBytes = acc.delta.resolvedBytes + e.wireSize)
      (hpackets : delta.resolvedPackets = acc.delta.resolvedPackets + 1) :
      Resolution mode acked e acc
        ({ e with acked := true }, ⟨acc.unresolved - 1, delta, acc.released⟩)
  | freed (hopen : e.Outstanding) (hmode : acked = true → isOrdered mode = false)
      (delta : CongestionDelta)
      (hbytes : delta.resolvedBytes = acc.delta.resolvedBytes + e.wireSize)
      (hpackets : delta.resolvedPackets = acc.delta.resolvedPackets + 1) :
      Resolution mode acked e acc
        ({ e with seq := 0, packetSlot := none, wireSize := 0, acked := false },
          ⟨acc.unresolved - 1, delta, acc.released ++ e.packetSlot.toList⟩)

theorem resolveOutEntry_resolution (mode : FlowMode) (acked : Bool) (e : InFlightEntry)
    (acc : Resolved) : Resolution mode acked e acc (resolveOutEntry mode acked e acc) := by
  rw [resolveOutEntry]
  by_cases hidle : e.seq = 0 ∨ e.acked = true
  · rw [if_pos hidle]
    exact .idle (by simpa [InFlightEntry.Outstanding, or_iff_not_imp_left] using hidle)
  · have hopen : e.Outstanding := by simpa [InFlightEntry.Outstanding] using hidle
    rw [if_neg hidle]
    cases acked with
    | false =>
      exact .freed hopen (by simp) _ rfl rfl
    | true =>
      cases hmode : isOrdered mode with
      | false =>
        exact .freed hopen (fun _ => hmode) _ rfl rfl
      | true =>
        exact .kept hopen hmode _ rfl rfl

def Covers (ack : AckEntry) (seq : ℕ) : Prop :=
  seq < ack.recvNext ∨ seqInRanges seq ack.ranges = true

instance (ack : AckEntry) (seq : ℕ) : Decidable (Covers ack seq) :=
  inferInstanceAs (Decidable (_ ∨ _))

inductive TickTurn (mode : FlowMode) (now rto : ℕ) (e : InFlightEntry) (acc : RetransmitScan) :
    InFlightEntry × RetransmitScan → Prop
  | kept (peer : PeerBudget) (hpeer : Paced now acc.peer peer) :
      TickTurn mode now rto e acc (e, { acc with peer := peer })
  | reoffered (packetSlot : ℕ) (peer : PeerBudget) (hpeer : Paced now acc.peer peer)
      (hlive : e.seq ≠ 0) (hacked : e.acked = true) :
      TickTurn mode now rto e acc ({ e with sentAtMicros := now },
        ⟨acc.resolved, peer, acc.resends ++ [(e.seq, packetSlot)]⟩)
  | probed (packetSlot : ℕ) (peer : PeerBudget) (hpeer : Paced now acc.peer peer)
      (hopen : e.Outstanding) (hdue : rto ≤ elapsed now e.sentAtMicros) (hmode : mode ≠ .unreliable) :
      TickTurn mode now rto e acc (e.probed now,
        ⟨{ acc.resolved with delta := { acc.resolved.delta with sawProbe := true } }, peer,
          acc.resends ++ [(e.seq, packetSlot)]⟩)
  | timedOut (hopen : e.Outstanding) (hdue : rto ≤ elapsed now e.sentAtMicros)
      (hmode : mode = .unreliable) :
      TickTurn mode now rto e acc ((resolveOutEntry mode false e acc.resolved).1,
        { acc with resolved := (resolveOutEntry mode false e acc.resolved).2 })

theorem collect_cases (now : ℕ) (probe : Bool) (e : InFlightEntry) (acc : RetransmitScan) :
    (∃ peer, Paced now acc.peer peer ∧ collect now probe e acc = (e, { acc with peer := peer })) ∨
      ∃ packetSlot peer, Paced now acc.peer peer ∧ collect now probe e acc =
        (if probe then e.probed now else { e with sentAtMicros := now },
          ⟨if probe
            then { acc.resolved with delta := { acc.resolved.delta with sawProbe := true } }
            else acc.resolved, peer, acc.resends ++ [(e.seq, packetSlot)]⟩) := by
  rw [collect]
  split
  · exact .inl ⟨acc.peer, .unasked, rfl⟩
  · next packetSlot _ =>
    by_cases hroom : acc.resends.length < resendsPerAssocPerTick
    · rw [if_pos hroom]
      by_cases hpaced : (acc.peer.pacingAllows now e.wireSize).2 = true
      · rw [if_pos hpaced]
        refine .inr ⟨packetSlot, _, .spent e.wireSize, ?_⟩
        cases probe with
        | false => rfl
        | true =>
          unfold InFlightEntry.probed
          cases e.freeResend <;> rfl
      · rw [if_neg hpaced]
        exact .inl ⟨_, .asked _, rfl⟩
    · rw [if_neg hroom]
      exact .inl ⟨acc.peer, .unasked, rfl⟩

theorem retransmitCell_tickTurn (timers : FlowTimers) (mode : FlowMode) (now rto : ℕ)
    (e : InFlightEntry) (acc : RetransmitScan) :
    TickTurn mode now rto e acc (retransmitCell timers mode now rto e acc) := by
  rw [retransmitCell]
  split_ifs with hfree hacked hyoung hearly hmode
  · exact .kept acc.peer .unasked
  · exact .kept acc.peer .unasked
  · rcases collect_cases now false e acc with ⟨peer, hpeer, heq⟩ | ⟨packetSlot, peer, hpeer, heq⟩
    · exact heq ▸ .kept peer hpeer
    · exact heq ▸ .reoffered packetSlot peer hpeer hfree hacked
  · exact .kept acc.peer .unasked
  · exact .timedOut ⟨hfree, by simpa using hacked⟩ (Nat.le_of_not_lt hearly) hmode
  · rcases collect_cases now true e acc with ⟨peer, hpeer, heq⟩ | ⟨packetSlot, peer, hpeer, heq⟩
    · exact heq ▸ .kept peer hpeer
    · exact heq ▸ .probed packetSlot peer hpeer ⟨hfree, by simpa using hacked⟩
        (Nat.le_of_not_lt hearly) hmode

/-- Induction rule for a retransmit pass: what it returns was accumulated over the first `n` cells,
none of them for an association that is dead. -/
theorem retransmitInflight_turns (timers : FlowTimers) (flow : OutAssociation) (peer : PeerBudget)
    (now : ℕ) (delta : CongestionDelta) {P : ℕ → RetransmitScan → Prop}
    (h0 : P 0 ⟨⟨flow.unresolved, delta, []⟩, peer, []⟩)
    (hturn : ∀ i < flow.inflightCap, ∀ acc r,
      TickTurn flow.mode now (probeTimeout timers peer.rtt now) (flow.inFlight i) acc r →
      (flow.retransmitInflight timers peer now delta).flow.inFlight i = r.1 → P i acc →
      P (i + 1) r.2) :
    ∃ n ≤ flow.inflightCap, ∃ acc, P n acc ∧
      (flow.retransmitInflight timers peer now delta).delta = acc.resolved.delta ∧
      (flow.retransmitInflight timers peer now delta).peer = acc.peer ∧
      (flow.retransmitInflight timers peer now delta).resends = acc.resends ∧
      (flow.retransmitInflight timers peer now delta).flow.unresolved = acc.resolved.unresolved := by
  rw [retransmitInflight] at hturn ⊢
  split_ifs at hturn ⊢
  · exact ⟨0, Nat.zero_le _, _, h0, rfl, rfl, rfl, rfl⟩
  · exact ⟨flow.inflightCap, le_rfl, _,
      scan_turns _ _ _ (retransmitCell_tickTurn timers flow.mode now _) h0 hturn, rfl, rfl, rfl, rfl⟩

inductive LossTurn (largestAcked now lossDelay : ℕ) (e : InFlightEntry) (delta : CongestionDelta) :
    InFlightEntry × CongestionDelta → Prop
  | kept : LossTurn largestAcked now lossDelay e delta (e, delta)
  | lost (hopen : e.Outstanding) (hnew : e.lostByAck = false)
      (hbelow : 0 < seqAhead largestAcked e.seq)
      (hverdict : lossPacketThreshold ≤ seqAhead largestAcked e.seq ∨
        e.sentAtMicros ≠ 0 ∧ lossDelay < elapsed now e.sentAtMicros) :
      LossTurn largestAcked now lossDelay e delta (e.judgedLost,
        { delta with lostDeclaredBytes := delta.lostDeclaredBytes + e.wireSize }.noteLoss
          e.congestionEpoch)

theorem lostCell_lossTurn (largestAcked now lossDelay : ℕ) (e : InFlightEntry)
    (delta : CongestionDelta) :
    LossTurn largestAcked now lossDelay e delta (lostCell largestAcked now lossDelay e delta) := by
  rw [lostCell]
  dsimp only
  split_ifs with hidle habove hverdict
  · exact .kept
  · exact .kept
  · rw [not_or, not_or] at hidle
    refine .lost ⟨hidle.1, by simpa using hidle.2.1⟩ (by simpa using hidle.2.2)
      (Nat.pos_of_ne_zero habove) ?_
    simpa using hverdict
  · exact .kept

/-- A turn of the loop of `ApplyAckRanges`: a cell the acknowledgement does not cover is left
alone, the others are resolved, and only an outstanding one can become the sample. -/
inductive AckTurn (mode : FlowMode) (ack : AckEntry) (e : InFlightEntry) (acc : AckScan) :
    InFlightEntry × AckScan → Prop
  | kept (hskip : e.seq = 0 ∨ ¬ Covers ack e.seq) : AckTurn mode ack e acc (e, acc)
  | covered (hlive : e.seq ≠ 0) (hcovers : Covers ack e.seq) (largestAcked : ℕ)
      (sample : Option (ℕ × ℕ × Bool))
      (hlargest : largestAcked = e.seq ∨ acc.largestAcked = some largestAcked)
      (hsample : sample = acc.sample ∨ e.acked = false ∧
        sample = some (e.seq, e.sentAtMicros, decide (e.retries ≠ 0) || e.lostByAck)) :
      AckTurn mode ack e acc ((resolveOutEntry mode true e acc.resolved).1,
        ⟨(resolveOutEntry mode true e acc.resolved).2, some largestAcked, sample⟩)

theorem ackCell_ackTurn (mode : FlowMode) (ack : AckEntry) (e : InFlightEntry) (acc : AckScan) :
    AckTurn mode ack e acc (ackCell mode ack.recvNext ack.ranges e acc) := by
  rw [ackCell]
  split_ifs with hfree hcovers
  · exact .kept (.inl hfree)
  · refine .covered hfree hcovers _ _ ?_ ?_
    · cases acc.largestAcked with
      | none => exact .inl rfl
      | some n =>
        dsimp only
        split_ifs
        · exact .inl rfl
        · exact .inr rfl
    · split_ifs with hfresh
      · rw [Bool.and_eq_true] at hfresh
        exact .inr ⟨by simpa using hfresh.1, rfl⟩
      · exact .inl rfl
  · exact .kept (.inr hcovers)

end OutAssociation

end BcpFlux.Flow
