import BcpFlux.Flow.BodySlots
import BcpFlux.Flow.Charges
import BcpFlux.Flow.Death

/-! # What happens to one cell of the sender's ring

The loops of `flow_table.cpp` over the in-flight ring, one turn at a time: every turn leaves a
cell alone or does one of a few things to it, for reasons that can be read off the cell.  The
counter of unresolved packets and the place of a sequence in the ring are kept by all of them.
-/

namespace BcpFlux.Flow
open Library Peer

namespace InFlightEntry

theorem charge_ne_zero {e : InFlightEntry} : e.charge.2 ≠ 0 ↔ e.Outstanding := by
  unfold charge Outstanding
  split_ifs with h
  · simp [h]
  · simp [h]

end InFlightEntry

namespace OutAssociation

theorem resolveOutEntry_cell (mode : FlowMode) (acked : Bool) (e : InFlightEntry) (acc : Resolved) :
    (resolveOutEntry mode acked e acc).1 = e ∨
      (e.Outstanding ∧ (resolveOutEntry mode acked e acc).1 = { e with acked := true }) ∨
      (e.Outstanding ∧ (resolveOutEntry mode acked e acc).1.seq = 0) := by
  have h := resolveOutEntry_resolution mode acked e acc
  generalize resolveOutEntry mode acked e acc = r at h ⊢
  cases h with
  | idle => exact .inl rfl
  | kept hopen => exact .inr (.inl ⟨hopen, rfl⟩)
  | freed hopen => exact .inr (.inr ⟨hopen, rfl⟩)

/-! ## A cell across an acknowledgement -/

section Acknowledgement
variable (flow : OutAssociation) (ack : AckEntry) (delta : CongestionDelta) (i : ℕ)

theorem resolveAcked_cell :
    (flow.resolveAcked ack delta).1.inFlight i = flow.inFlight i ∨
      ((flow.inFlight i).Outstanding ∧ (flow.resolveAcked ack delta).1.inFlight i =
        { flow.inFlight i with acked := true }) ∨
      ((flow.inFlight i).Outstanding ∧ ((flow.resolveAcked ack delta).1.inFlight i).seq = 0) := by
  rw [resolveAcked]
  dsimp only
  rw [scan_cell]
  split_ifs
  · have hturn := ackCell_ackTurn flow.mode ack (flow.inFlight i)
      (scan (ackCell flow.mode ack.recvNext ack.ranges) i flow.inFlight
        ⟨⟨flow.unresolved, delta, []⟩, none, none⟩).2
    generalize ackCell flow.mode ack.recvNext ack.ranges (flow.inFlight i) _ = r at hturn ⊢
    cases hturn with
    | kept => exact .inl rfl
    | covered => exact resolveOutEntry_cell _ _ _ _
  · exact .inl rfl

/-- What the scan reports comes from the ring: the highest sequence from a covered cell, the
sample from an outstanding one. -/
theorem resolveAcked_reports :
    (∀ n, (flow.resolveAcked ack delta).2.largestAcked = some n →
        ∃ j < flow.inflightCap, (flow.inFlight j).seq = n ∧ n ≠ 0 ∧ Covers ack n) ∧
      ∀ n sentAt resent, (flow.resolveAcked ack delta).2.sample = some (n, sentAt, resent) →
        ∃ j < flow.inflightCap, (flow.inFlight j).Outstanding ∧ Covers ack (flow.inFlight j).seq ∧
          (flow.inFlight j).seq = n ∧ (flow.inFlight j).sentAtMicros = sentAt ∧
          (decide ((flow.inFlight j).retries ≠ 0) || (flow.inFlight j).lostByAck) = resent := by
  refine scan_turns
    (P := fun m (b : AckScan) =>
      (∀ n, b.largestAcked = some n →
        ∃ j < m, (flow.inFlight j).seq = n ∧ n ≠ 0 ∧ Covers ack n) ∧
      ∀ n sentAt resent, b.sample = some (n, sentAt, resent) →
        ∃ j < m, (flow.inFlight j).Outstanding ∧ Covers ack (flow.inFlight j).seq ∧
          (flow.inFlight j).seq = n ∧ (flow.inFlight j).sentAtMicros = sentAt ∧
          (decide ((flow.inFlight j).retries ≠ 0) || (flow.inFlight j).lostByAck) = resent)
    _ _ _ (ackCell_ackTurn flow.mode ack) ⟨fun _ h => (nomatch h), fun _ _ _ h => (nomatch h)⟩ ?_
  rintro k _ acc r hturn - ⟨hhigh, hsampled⟩
  have hlater : ∀ n, acc.largestAcked = some n →
      ∃ j < k + 1, (flow.inFlight j).seq = n ∧ n ≠ 0 ∧ Covers ack n := by
    intro n hn
    obtain ⟨j, hj, h⟩ := hhigh n hn
    exact ⟨j, by omega, h⟩
  cases hturn with
  | kept =>
    refine ⟨hlater, ?_⟩
    intro n sentAt resent h
    obtain ⟨j, hj, h⟩ := hsampled n sentAt resent h
    exact ⟨j, by omega, h⟩
  | covered hlive hcovers largestAcked sample hlargest hsample =>
    constructor
    · intro n hn
      rw [Option.some.injEq] at hn
      subst hn
      rcases hlargest with rfl | hold
      · exact ⟨k, by omega, rfl, hlive, hcovers⟩
      · exact hlater largestAcked hold
    · intro n sentAt resent h
      rcases hsample with hsame | ⟨hacked, hnew⟩
      · obtain ⟨j, hj, h⟩ := hsampled n sentAt resent (hsame ▸ h)
        exact ⟨j, by omega, h⟩
      · have heq := hnew.symm.trans h
        rw [Option.some.injEq, Prod.mk.injEq, Prod.mk.injEq] at heq
        exact ⟨k, by omega, ⟨hlive, hacked⟩, hcovers, heq⟩

theorem judgeLoss_cell (largestAcked : Option ℕ) (now lossDelay : ℕ) :
    (flow.judgeLoss largestAcked now lossDelay delta).1.inFlight i = flow.inFlight i ∨
      ∃ n, largestAcked = some n ∧ flow.mode ≠ .unreliable ∧ (flow.inFlight i).Outstanding ∧
        (flow.inFlight i).lostByAck = false ∧ 0 < seqAhead n (flow.inFlight i).seq ∧
        (lossPacketThreshold ≤ seqAhead n (flow.inFlight i).seq ∨
          (flow.inFlight i).sentAtMicros ≠ 0 ∧
            lossDelay < elapsed now (flow.inFlight i).sentAtMicros) ∧
        (flow.judgeLoss largestAcked now lossDelay delta).1.inFlight i =
          (flow.inFlight i).judgedLost := by
  cases largestAcked with
  | none => exact .inl rfl
  | some n =>
    rw [judgeLoss, declareLostBelow]
    split_ifs with hmode
    · exact .inl rfl
    · dsimp only
      rw [scan_cell]
      split_ifs
      · have hturn := lostCell_lossTurn n now lossDelay (flow.inFlight i)
          (scan (lostCell n now lossDelay) i flow.inFlight delta).2
        generalize lostCell n now lossDelay (flow.inFlight i) _ = r at hturn ⊢
        cases hturn with
        | kept => exact .inl rfl
        | lost hopen hnew hbelow hverdict =>
          exact .inr ⟨n, rfl, hmode, hopen, hnew, hbelow, hverdict, rfl⟩
      · exact .inl rfl

theorem releaseAckedRun_cell (remoteRecvNext steps : ℕ) (flow : OutAssociation) (i : ℕ) :
    (releaseAckedRun remoteRecvNext steps flow).1.inFlight i = flow.inFlight i ∨
      (flow.inFlight i).acked = true ∧
        ∃ epoch, (releaseAckedRun remoteRecvNext steps flow).1.inFlight i =
          { InFlightEntry.free with congestionEpoch := epoch } := by
  induction steps generalizing flow with
  | zero => exact .inl rfl
  | succ steps ih =>
    rw [releaseAckedRun]
    dsimp only
    split_ifs with hmore hbase hacked
    · by_cases hi : i = slot flow.inflightCap flow.ackBase
      · have hcell : flow.releaseBase.inFlight i = { InFlightEntry.free with
            congestionEpoch := (flow.inFlight i).congestionEpoch } := by
          simp only [releaseBase, put_apply, hi, if_true]
        rcases ih flow.releaseBase with heq | ⟨hfreed, -⟩
        · exact .inr ⟨hi ▸ hacked, _, heq.trans hcell⟩
        · rw [hcell] at hfreed
          cases hfreed
      · have hcell : flow.releaseBase.inFlight i = flow.inFlight i := by
          simp only [releaseBase, put_apply, hi, if_false]
        rcases ih flow.releaseBase with heq | h
        · exact .inl (heq.trans hcell)
        · rw [hcell] at h
          exact .inr h
    · exact .inl rfl
    · exact ih { flow with ackBase := succSeq flow.ackBase }
    · exact .inl rfl

/-- The cell was judged lost by this acknowledgement. -/
def LostNow (flow flow' : OutAssociation) (i : ℕ) : Prop :=
  (flow.inFlight i).lostByAck = false ∧ (flow'.inFlight i).Outstanding ∧
    (flow'.inFlight i).lostByAck = true

instance (flow flow' : OutAssociation) (i : ℕ) : Decidable (LostNow flow flow' i) :=
  inferInstanceAs (Decidable (_ ∧ _ ∧ _))

/-- The acknowledgement is about this generation of the flow. -/
def Addressed (flow : OutAssociation) (ack : AckEntry) : Prop :=
  flow.flowId = ack.flowId ∧ flow.flowEpoch = ack.flowEpoch

instance (flow : OutAssociation) (ack : AckEntry) : Decidable (flow.Addressed ack) :=
  inferInstanceAs (Decidable (_ ∧ _))

theorem applyAck_cell (timers : FlowTimers) (rtt : RttEstimate) (now : ℕ) :
    let e' := (flow.applyAck timers rtt ack now delta).1.inFlight i
    e' = flow.inFlight i ∨ e'.seq = 0 ∨
      ((flow.inFlight i).Outstanding ∧ e' = { flow.inFlight i with acked := true }) ∨
      ((flow.inFlight i).Outstanding ∧ (flow.inFlight i).lostByAck = false ∧
        e' = (flow.inFlight i).judgedLost ∧ flow.Addressed ack ∧ flow.mode ≠ .unreliable ∧
        ∃ n, (flow.resolveAcked ack delta).2.largestAcked = some n ∧
          0 < seqAhead n (flow.inFlight i).seq ∧
          (lossPacketThreshold ≤ seqAhead n (flow.inFlight i).seq ∨
            (flow.inFlight i).sentAtMicros ≠ 0 ∧
              rtt.lossDelayMicros timers.retryIntervalMicros <
                elapsed now (flow.inFlight i).sentAtMicros)) := by
  rw [applyAck]
  split_ifs with haddressed
  · dsimp only
    have hresolved := flow.resolveAcked_cell ack delta i
    have hsame : (flow.resolveAcked ack delta).1.mode = flow.mode := rfl
    generalize hr : flow.resolveAcked ack delta = r at hresolved hsame ⊢
    have hjudged := r.1.judgeLoss_cell (noteSample r.2.sample now ack.ackDelay r.2.resolved.delta) i
      r.2.largestAcked now (rtt.lossDelayMicros timers.retryIntervalMicros)
    generalize r.1.judgeLoss r.2.largestAcked now _ _ = j at hjudged ⊢
    rcases releaseAckedRun_cell ack.recvNext j.1.inflightCap j.1 i with hrun | ⟨-, epoch, hfreed⟩
    · rw [hrun]
      rcases hjudged with hkept | ⟨n, hn, hmode, hopen, hnew, hbelow, hverdict, hlost⟩
      · rw [hkept]
        rcases hresolved with h | ⟨hopen, h⟩ | ⟨-, h⟩
        · exact .inl h
        · exact .inr (.inr (.inl ⟨hopen, h⟩))
        · exact .inr (.inl h)
      · -- only a cell the acknowledgement left alone is still outstanding
        have hkept : r.1.inFlight i = flow.inFlight i := by
          rcases hresolved with h | ⟨-, h⟩ | ⟨-, h⟩
          · exact h
          · rw [h] at hopen
            cases hopen.2
          · exact absurd h hopen.1
        rw [hkept] at hopen hnew hbelow hverdict hlost
        exact .inr (.inr (.inr ⟨hopen, hnew, hlost, haddressed, hsame ▸ hmode, n, hn, hbelow,
          hverdict⟩))
    · rw [hfreed]
      exact .inr (.inl rfl)
  · exact .inl rfl

end Acknowledgement

/-! ## The counter of unresolved packets -/

/-- The counter is the number of outstanding cells. -/
structure Counted (flow : OutAssociation) : Prop where
  cap : IsPow2 flow.inflightCap
  seq : flow.nextSeq ≠ 0
  count : flow.unresolved = flow.owes.2

variable {flow flow' : OutAssociation}

theorem Counted.pos (h : flow.Counted) {i : ℕ} (hi : i < flow.inflightCap)
    (hopen : (flow.inFlight i).Outstanding) : 0 < flow.unresolved := by
  rw [h.count, owes, total, Prod.snd_sum]
  refine lt_of_lt_of_le (Nat.pos_of_ne_zero (InFlightEntry.charge_ne_zero.mpr hopen)) ?_
  exact Finset.single_le_sum (f := fun j => (flow.inFlight j).charge.2)
    (fun _ _ => Nat.zero_le _) (Finset.mem_range.mpr hi)

theorem Counted.walks {ok : ℕ → Prop} {before after : ℕ × ℕ} {released : List ℕ} (h : flow.Counted)
    (hwalk : Walks ok flow before flow' after released) : flow'.Counted where
  cap := hwalk.same.cap ▸ h.cap
  seq := hwalk.same.next ▸ h.seq
  count := by
    have haccount : flow'.owes.2 + after.2 = flow.owes.2 + before.2 :=
      congrArg Prod.snd (hwalk.account h.cap)
    have hle := hwalk.grows
    rw [hwalk.count, h.count]
    omega

theorem Counted.stamp (h : flow.Counted)
    (hcell : (flow.inFlight (slot flow.inflightCap flow.nextSeq)).seq = 0) (peer : PeerBudget)
    (packetSlot : Option ℕ) (wireSize : ℕ) (flying : Bool) (now : ℕ) :
    (flow.stamp peer packetSlot wireSize flying now).1.Counted where
  cap := h.cap
  seq := SenderSide.succSeq_ne_zero flow.nextSeq
  count := by
    rw [stamp_owes h.cap h.seq hcell, Prod.snd_add, ← h.count]
    rfl

theorem Counted.of_same (h : flow.Counted) (hring : flow'.inFlight = flow.inFlight)
    (hcap : flow'.inflightCap = flow.inflightCap) (hseq : flow'.nextSeq = flow.nextSeq)
    (hcount : flow'.unresolved = flow.unresolved) : flow'.Counted where
  cap := hcap ▸ h.cap
  seq := hseq ▸ h.seq
  count := by rw [hcount, h.count, owes, owes, hring, hcap]

theorem Counted.tearDown (h : flow.Counted) (life : FlowLifecycle) : (flow.tearDown life).Counted where
  cap := h.cap
  seq := h.seq
  count := congrArg Prod.snd (owes_tearDown flow life).symm

theorem counted_reset (oldEpoch : ℕ) (p : OutAssocParams) (now : ℕ) :
    (resetOutAssoc oldEpoch p now).Counted where
  cap := InAssociation.windowFor_isPow2 p.mode
  seq := Nat.one_ne_zero
  count := congrArg Prod.snd (owes_reset oldEpoch p now).symm

theorem Counted.admitOut (h : flow.Counted) (peer : PeerBudget) (packetSlot wireSize : ℕ)
    (flying : Bool) (now : ℕ) : (flow.admitOut peer packetSlot wireSize flying now).2.1.Counted := by
  have hadmitted := flow.admitOut_admission peer packetSlot wireSize flying now
  generalize flow.admitOut peer packetSlot wireSize flying now = r at hadmitted ⊢
  cases hadmitted with
  | refused => exact h
  | stamped _ _ hroom => exact h.stamp (canSend_cell hroom) _ _ wireSize flying now
  | queued | evicted => exact h.of_same rfl rfl rfl rfl

theorem Counted.claimWaiting (h : flow.Counted) (peer : PeerBudget)
    (candidateEpoch candidateSlot now : ℕ) :
    (flow.claimWaiting peer candidateEpoch candidateSlot now).2.1.Counted := by
  have hclaim := flow.claimWaiting_claim peer candidateEpoch candidateSlot now
  generalize flow.claimWaiting peer candidateEpoch candidateSlot now = r at hclaim ⊢
  cases hclaim with
  | kept => exact h
  | stamped head rest _ _ hroom =>
    have hrest : ({ flow with waiting := rest } : OutAssociation).Counted :=
      h.of_same rfl rfl rfl rfl
    exact hrest.stamp (canSend_cell hroom) _ _ _ true now

theorem Counted.act (h : flow.Counted) (timers : FlowTimers) (now : ℕ) (a : Action) :
    (flow.act timers now a).Counted := by
  cases a with
  | send packetSlot wireSize flying peer => exact h.admitOut peer packetSlot wireSize flying now
  | drain candidateEpoch candidateSlot peer =>
    exact h.claimWaiting peer candidateEpoch candidateSlot now
  | ack rtt entry => exact h.walks (flow.applyAck_walks timers rtt entry now .zero)
  | tick peer =>
    rw [OutAssociation.act]
    dsimp only
    split_ifs
    · exact h.tearDown .failed
    · exact h.walks (flow.retransmitInflight_walks timers peer now .zero)
    · exact h
  | refund seqs => exact h.walks (flow.refundResendAttempts_walks seqs (fun _ => False) 0)
  | teardown life => exact h.tearDown life

end OutAssociation

theorem Lifetime.counted_run (timers : FlowTimers) (oldEpoch : ℕ) (p : OutAssocParams) (start : ℕ)
    (events : List (ℕ × Action)) :
    (run (Lifetime.step timers) (Lifetime.created oldEpoch p start) events).assoc.Counted :=
  run_invariant (Lifetime.step timers) (fun s => s.assoc.Counted) (fun _ _ => True)
    (fun _ e _ h => h.act timers _ e.2) (OutAssociation.counted_reset oldEpoch p start)
    (along_true _ _ _)

end BcpFlux.Flow
