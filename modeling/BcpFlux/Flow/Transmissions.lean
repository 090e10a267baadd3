import BcpFlux.Flow.Cells

/-! # What the wire saw of an in-flight entry

The retry count, the two loss flags and the stamp of a cell stand for how often its packet
was put on the wire.  A `Tracked` association carries that number beside the ring: `Trace` is
written when a packet is stamped and when the kernel takes a resend, by nothing else.
-/

namespace BcpFlux.Flow
open Library Peer

/-- What the wire has seen of the packet in one cell. -/
structure Trace where
  /-- The kernel took the transmission that belongs to the stamp. -/
  taken : Bool
  /-- The kernel refused it; a packet held behind the handshake was not offered to it. -/
  refused : Bool
  /-- Resends the kernel took. -/
  resent : ℕ
  stampedAt : ℕ
deriving DecidableEq, Repr

def Trace.sent (t : Trace) : ℕ := t.taken.toNat + t.resent

/-- Everything that happens to a sending association, with the kernel's answers.  A packet
that is not `flying` is held behind the handshake. -/
inductive Move where
  | send (packetSlot wireSize : ℕ) (flying took : Bool) (peer : PeerBudget)
  | drain (candidateEpoch candidateSlot : ℕ) (took : Bool) (peer : PeerBudget)
  | ack (rtt : RttEstimate) (entry : AckEntry)
  /-- `took` tells for each sequence whether its resend left. -/
  | tick (peer : PeerBudget) (took : ℕ → Bool)
  | refund (seqs : List ℕ)
  | teardown (life : FlowLifecycle)

def Move.action : Move → Action
  | .send packetSlot wireSize flying _ peer => .send packetSlot wireSize flying peer
  | .drain candidateEpoch candidateSlot _ peer => .drain candidateEpoch candidateSlot peer
  | .ack rtt entry => .ack rtt entry
  | .tick peer _ => .tick peer
  | .refund seqs => .refund seqs
  | .teardown life => .teardown life

structure Tracked where
  assoc : OutAssociation
  trace : ℕ → Trace

namespace Tracked

def created (oldEpoch : ℕ) (p : OutAssocParams) (now : ℕ) : Tracked :=
  ⟨resetOutAssoc oldEpoch p now, fun _ => ⟨false, false, 0, 0⟩⟩

/-- The next packet was stamped, and offered to the kernel if it is `flying`. -/
def noteStamp (s : Tracked) (flying took : Bool) (now : ℕ) : ℕ → Trace :=
  put s.assoc.inflightCap s.trace s.assoc.nextSeq ⟨flying && took, flying && !took, 0, now⟩

/-- One resend was collected for the cell and left. -/
def Resent (resends : List (ℕ × ℕ)) (took : ℕ → Bool) (e : InFlightEntry) : Prop :=
  ∃ r ∈ resends, r.1 = e.seq ∧ took e.seq = true

instance (resends : List (ℕ × ℕ)) (took : ℕ → Bool) (e : InFlightEntry) :
    Decidable (Resent resends took e) := inferInstanceAs (Decidable (∃ r ∈ resends, _))

def noteResends (s : Tracked) (resends : List (ℕ × ℕ)) (took : ℕ → Bool) : ℕ → Trace :=
  fun i => if Resent resends took (s.assoc.inFlight i)
    then { s.trace i with resent := (s.trace i).resent + 1 } else s.trace i

def trace' (timers : FlowTimers) (s : Tracked) (now : ℕ) : Move → ℕ → Trace
  | .send packetSlot wireSize flying took peer =>
    if (s.assoc.admitOut peer packetSlot wireSize flying now).1 = .sent
    then s.noteStamp flying took now else s.trace
  | .drain candidateEpoch candidateSlot took peer =>
    if (s.assoc.claimWaiting peer candidateEpoch candidateSlot now).1 = true
    then s.noteStamp true took now else s.trace
  | .tick peer took =>
    if s.assoc.life = .opened
    then s.noteResends (s.assoc.retransmitInflight timers peer now .zero).resends took
    else s.trace
  | .ack _ _ | .refund _ | .teardown _ => s.trace

def step (timers : FlowTimers) (s : Tracked) (e : ℕ × Move) : Tracked :=
  ⟨s.assoc.act timers e.1 e.2.action, s.trace' timers e.1 e.2⟩

end Tracked

/-! ## Cells that may still become a sample -/

namespace InFlightEntry

/-- `ApplyAckRanges` would measure the cell. -/
def Eligible (e : InFlightEntry) : Prop :=
  e.Outstanding ∧ e.retries = 0 ∧ e.lostByAck = false ∧ e.sentAtMicros ≠ 0

instance (e : InFlightEntry) : Decidable e.Eligible := inferInstanceAs (Decidable (_ ∧ _ ∧ _ ∧ _))

/-- Only a packet judged lost by an acknowledgement is resent free of charge. -/
def Marked (e : InFlightEntry) : Prop := e.seq ≠ 0 → e.freeResend = true → e.lostByAck = true

/-- The cell was worked on and not filled again: nothing becomes eligible, and what stays
eligible keeps its stamp. -/
structure Ages (e e' : InFlightEntry) : Prop where
  seq : e'.seq = e.seq ∨ e'.seq = 0
  opened : e'.Outstanding → e.Outstanding ∧ e'.congestionEpoch = e.congestionEpoch
  marked : e.Marked → e'.Marked
  eligible : e'.Eligible → e.Eligible ∧ e'.sentAtMicros = e.sentAtMicros

theorem Ages.refl (e : InFlightEntry) : e.Ages e :=
  ⟨.inl rfl, fun h => ⟨h, rfl⟩, id, fun h => ⟨h, rfl⟩⟩

variable {e : InFlightEntry}

theorem Ages.trans {e' e'' : InFlightEntry} (h : e.Ages e') (h' : e'.Ages e'') : e.Ages e'' where
  seq := by
    rcases h'.seq with heq | hfree
    · rw [heq]
      exact h.seq
    · exact .inr hfree
  opened := by
    intro hopen
    obtain ⟨hopen', hepoch'⟩ := h'.opened hopen
    exact ⟨(h.opened hopen').1, hepoch'.trans (h.opened hopen').2⟩
  marked := fun hmarked => h'.marked (h.marked hmarked)
  eligible := by
    intro helig
    obtain ⟨helig', hstamp'⟩ := h'.eligible helig
    obtain ⟨helig'', hstamp⟩ := h.eligible helig'
    exact ⟨helig'', hstamp'.trans hstamp⟩

theorem Ages.of_free {e' : InFlightEntry} (h : e'.seq = 0) : e.Ages e' where
  seq := .inr h
  opened := fun hopen => absurd h hopen.1
  marked := fun _ hseq => absurd h hseq
  eligible := fun helig => absurd h helig.1.1

theorem not_eligible_of_acked (h : e.acked = true) : ¬ e.Eligible := by
  intro helig
  rw [helig.1.2] at h
  cases h

theorem ages_acked : e.Ages { e with acked := true } where
  seq := .inl rfl
  opened := fun hopen => nomatch hopen.2
  marked := id
  eligible := fun helig => absurd helig (not_eligible_of_acked rfl)

theorem ages_judgedLost : e.Ages e.judgedLost where
  seq := .inl rfl
  opened := fun hopen => ⟨hopen, rfl⟩
  marked := fun _ _ _ => rfl
  eligible := fun helig => absurd helig.2.2.1 (by simp [judgedLost])

theorem not_eligible_probed (hmarked : e.Marked) (now : ℕ) :
    ¬ (e.probed now).Eligible := by
  rintro ⟨hopen, hretries, hlost, -⟩
  rw [probed_lostByAck] at hlost
  have hlive : e.seq ≠ 0 := by simpa using hopen.1
  cases hfree : e.freeResend with
  | true =>
    rw [hmarked hlive hfree] at hlost
    cases hlost
  | false => simp [probed, hfree, uint8Max] at hretries

theorem ages_probed (hmarked : e.Marked) (now : ℕ) : e.Ages (e.probed now) where
  seq := .inl (probed_seq now e)
  opened := by
    unfold probed
    split <;> exact fun hopen => ⟨hopen, rfl⟩
  marked := by
    intro _ hlive hfree
    cases h : e.freeResend with
    | true => simp [probed, h] at hfree
    | false => simp [probed, h] at hfree
  eligible := fun helig => absurd helig (not_eligible_probed hmarked now)

end InFlightEntry

namespace OutAssociation
open InFlightEntry

variable {flow : OutAssociation}

theorem applyAck_ages (timers : FlowTimers) (rtt : RttEstimate) (flow : OutAssociation)
    (ack : AckEntry) (now : ℕ) (delta : CongestionDelta) (i : ℕ) :
    (flow.inFlight i).Ages ((flow.applyAck timers rtt ack now delta).1.inFlight i) := by
  rcases flow.applyAck_cell ack delta i timers rtt now with h | h | ⟨-, h⟩ | ⟨-, -, h, -⟩
  · rw [h]
    exact .refl _
  · exact .of_free h
  · rw [h]
    exact ages_acked
  · rw [h]
    exact ages_judgedLost

theorem refundOne_ages (flow : OutAssociation) (seq i : ℕ) :
    (flow.inFlight i).Ages ((flow.refundOne seq).inFlight i) := by
  rw [refundOne]
  by_cases hskip : (flow.inFlight (slot flow.inflightCap seq)).seq ≠ seq ∨
      (flow.inFlight (slot flow.inflightCap seq)).acked = true
  · rw [if_pos hskip]
    exact .refl _
  · rw [if_neg hskip]
    by_cases hi : i = slot flow.inflightCap seq
    · subst hi
      simp only [put_self]
      exact ⟨.inl rfl, fun hopen => ⟨hopen, rfl⟩, id, fun helig => absurd rfl helig.2.2.2⟩
    · simp only [put_of_ne _ _ hi]
      exact .refl _

theorem refundResendAttempts_ages (seqs : List ℕ) (flow : OutAssociation) (i : ℕ) :
    (flow.inFlight i).Ages ((flow.refundResendAttempts seqs).inFlight i) := by
  induction seqs generalizing flow with
  | nil => exact .refl _
  | cons seq seqs ih => exact (flow.refundOne_ages seq i).trans (ih (flow.refundOne seq))

section
variable {mode : FlowMode} {now rto : ℕ} {e : InFlightEntry} {acc : RetransmitScan} {r : InFlightEntry × RetransmitScan}

theorem TickTurn.ages (h : TickTurn mode now rto e acc r) (hmarked : e.Marked) :
    e.Ages r.1 := by
  cases h with
  | kept => exact .refl e
  | reoffered packetSlot peer _ hlive hacked =>
    exact ⟨.inl rfl, fun hopen => ⟨hopen, rfl⟩, id,
      fun helig => absurd helig (not_eligible_of_acked hacked)⟩
  | probed => exact ages_probed hmarked now
  | timedOut hopen =>
    rcases resolveOutEntry_cell mode false e acc.resolved with h | ⟨-, h⟩ | ⟨-, h⟩
    · rw [h]
      exact .refl e
    · rw [h]
      exact ages_acked
    · exact .of_free h

theorem TickTurn.resends (h : TickTurn mode now rto e acc r) (hmarked : e.Marked) :
    r.2.resends = acc.resends ∨ e.seq ≠ 0 ∧ ¬ r.1.Eligible ∧
      ∃ packetSlot, r.2.resends = acc.resends ++ [(e.seq, packetSlot)] := by
  cases h with
  | kept => exact .inl rfl
  | reoffered packetSlot peer _ hlive hacked =>
    exact .inr ⟨hlive, not_eligible_of_acked hacked, packetSlot, rfl⟩
  | probed packetSlot peer _ hopen =>
    exact .inr ⟨hopen.1, not_eligible_probed hmarked now, packetSlot, rfl⟩
  | timedOut => exact .inl rfl

end

theorem retransmitInflight_ages (timers : FlowTimers) (peer : PeerBudget) (now : ℕ)
    (hmarked : ∀ i, (flow.inFlight i).Marked) (i : ℕ) :
    (flow.inFlight i).Ages
      ((flow.retransmitInflight timers peer now .zero).flow.inFlight i) := by
  rw [retransmitInflight]
  split_ifs
  · exact .refl _
  · dsimp only
    rw [scan_cell]
    split_ifs
    · exact (retransmitCell_tickTurn timers flow.mode now _ (flow.inFlight i) _).ages (hmarked i)
    · exact .refl _

theorem retransmitInflight_collected (timers : FlowTimers) (peer : PeerBudget) (now : ℕ)
    (hmarked : ∀ i, (flow.inFlight i).Marked) {r : ℕ × ℕ}
    (hr : r ∈ (flow.retransmitInflight timers peer now .zero).resends) :
    ∃ j, (flow.inFlight j).seq = r.1 ∧ r.1 ≠ 0 ∧
      ¬ ((flow.retransmitInflight timers peer now .zero).flow.inFlight j).Eligible := by
  obtain ⟨n, -, acc, hacc, -, -, hresends, -⟩ := flow.retransmitInflight_turns timers peer now .zero
    (P := fun m acc => ∀ r ∈ acc.resends, ∃ j < m, (flow.inFlight j).seq = r.1 ∧ r.1 ≠ 0 ∧
      ¬ ((flow.retransmitInflight timers peer now .zero).flow.inFlight j).Eligible)
    (fun r hr => absurd hr List.not_mem_nil) (by
      intro k _ acc t hturn hcell hacc r hr
      have hearlier : r ∈ acc.resends → _ := hacc r
      rcases hturn.resends (hmarked k) with hsame | ⟨hlive, helig, packetSlot, hnew⟩
      · obtain ⟨j, hj, h⟩ := hearlier (hsame ▸ hr)
        exact ⟨j, by omega, h⟩
      · rw [hnew, List.mem_append, List.mem_singleton] at hr
        rcases hr with hr | rfl
        · obtain ⟨j, hj, h⟩ := hearlier hr
          exact ⟨j, by omega, h⟩
        · exact ⟨k, by omega, rfl, hlive, hcell ▸ helig⟩)
  obtain ⟨j, -, h⟩ := hacc r (hresends ▸ hr)
  exact ⟨j, h⟩

end OutAssociation

/-! ## One transmission for every cell that may be measured -/

namespace Tracked
open OutAssociation

structure Inv (s : Tracked) : Prop where
  cap : IsPow2 s.assoc.inflightCap
  /-- A sequence stands in the cell the mask gives it. -/
  placed : ∀ i, (s.assoc.inFlight i).seq ≠ 0 →
    slot s.assoc.inflightCap (s.assoc.inFlight i).seq = i
  marked : ∀ i, (s.assoc.inFlight i).Marked
  once : ∀ i, (s.assoc.inFlight i).Eligible →
    (s.trace i).resent = 0 ∧ (s.trace i).stampedAt = (s.assoc.inFlight i).sentAtMicros ∧
      (s.trace i).taken = !(s.trace i).refused

theorem inv_created (oldEpoch : ℕ) (p : OutAssocParams) (now : ℕ) : (created oldEpoch p now).Inv where
  cap := InAssociation.windowFor_isPow2 p.mode
  placed := fun _ h => absurd rfl h
  marked := fun _ h => absurd rfl h
  once := fun _ h => absurd rfl h.1.1

variable {s s' : Tracked}

/-- A move that fills no cell and whose resends all come from cells it makes ineligible. -/
theorem Inv.ages (h : s.Inv) (hcap : s'.assoc.inflightCap = s.assoc.inflightCap)
    (hages : ∀ i, (s.assoc.inFlight i).Ages (s'.assoc.inFlight i))
    (htrace : ∀ i, (s'.assoc.inFlight i).Eligible → s'.trace i = s.trace i) : s'.Inv where
  cap := hcap ▸ h.cap
  placed := by
    intro i hlive
    rcases (hages i).seq with hseq | hfree
    · rw [hcap, hseq]
      exact h.placed i (hseq ▸ hlive)
    · exact absurd hfree hlive
  marked := fun i => (hages i).marked (h.marked i)
  once := by
    intro i helig
    obtain ⟨helig', hstamp⟩ := (hages i).eligible helig
    rw [htrace i helig, hstamp]
    exact h.once i helig'

theorem Inv.stamp (h : s.Inv) (peer : PeerBudget) (packetSlot : Option ℕ) (wireSize : ℕ)
    (flying took : Bool) (now : ℕ) (hassoc : s'.assoc.inFlight =
      (s.assoc.stamp peer packetSlot wireSize flying now).1.inFlight)
    (hcap : s'.assoc.inflightCap = s.assoc.inflightCap)
    (htrace : s'.trace = s.noteStamp flying took now) : s'.Inv := by
  have hring : s'.assoc.inFlight = put s.assoc.inflightCap s.assoc.inFlight s.assoc.nextSeq
    (s.assoc.stampedEntry peer packetSlot wireSize flying now) := hassoc
  refine ⟨hcap ▸ h.cap, ?_, ?_, ?_⟩
  · intro i hlive
    rw [hcap]
    rw [hring, put_apply] at hlive ⊢
    split_ifs at hlive ⊢ with hi
    · exact hi.symm
    · exact h.placed i hlive
  · intro i
    rw [hring, put_apply]
    split_ifs
    · exact fun _ hfree => absurd hfree Bool.false_ne_true
    · exact h.marked i
  · intro i
    rw [htrace, noteStamp, hring, put_apply, put_apply]
    split_ifs
    · intro helig
      have hstamp := helig.2.2.2
      cases flying with
      | true => exact ⟨rfl, rfl, (Bool.not_not took).symm⟩
      | false => exact absurd rfl hstamp
    · exact h.once i

theorem Inv.send (h : s.Inv) (timers : FlowTimers) (now packetSlot wireSize : ℕ)
    (flying took : Bool) (peer : PeerBudget) :
    (s.step timers (now, .send packetSlot wireSize flying took peer)).Inv := by
  have hkeep : ∀ flow' : OutAssociation, flow'.inFlight = s.assoc.inFlight →
      flow'.inflightCap = s.assoc.inflightCap → (⟨flow', s.trace⟩ : Tracked).Inv := by
    intro flow' hring hcap
    exact h.ages hcap (fun i => by rw [hring]; exact .refl _) fun _ _ => rfl
  rw [step]
  dsimp only [Move.action, OutAssociation.act, trace']
  have hadmitted := s.assoc.admitOut_admission peer packetSlot wireSize flying now
  generalize s.assoc.admitOut peer packetSlot wireSize flying now = r at hadmitted ⊢
  cases hadmitted with
  | refused _ _ _ hsent =>
    rw [if_neg hsent]
    exact hkeep _ rfl rfl
  | stamped =>
    rw [if_pos rfl]
    exact h.stamp _ _ wireSize flying took now rfl rfl rfl
  | queued | evicted =>
    rw [if_neg (by simp)]
    exact hkeep _ rfl rfl

theorem Inv.drain (h : s.Inv) (timers : FlowTimers) (now candidateEpoch candidateSlot : ℕ)
    (took : Bool) (peer : PeerBudget) :
    (s.step timers (now, .drain candidateEpoch candidateSlot took peer)).Inv := by
  rw [step]
  dsimp only [Move.action, OutAssociation.act, trace']
  have hclaim := s.assoc.claimWaiting_claim peer candidateEpoch candidateSlot now
  generalize s.assoc.claimWaiting peer candidateEpoch candidateSlot now = r at hclaim ⊢
  cases hclaim with
  | kept =>
    rw [if_neg (by simp)]
    exact h
  | stamped head =>
    rw [if_pos rfl]
    exact h.stamp _ _ head.wireSize true took now rfl rfl rfl

theorem Inv.tick (h : s.Inv) (timers : FlowTimers) (now : ℕ) (peer : PeerBudget)
    (took : ℕ → Bool) : (s.step timers (now, .tick peer took)).Inv := by
  rw [step]
  dsimp only [Move.action, OutAssociation.act, trace']
  by_cases hlife : s.assoc.life = .opened
  · rw [if_pos hlife, if_pos hlife]
    by_cases hdead : (s.assoc.retransmitInflight timers peer now .zero).assocDead = true
    · rw [if_pos hdead]
      exact h.ages rfl (fun _ => .of_free rfl) fun i helig => absurd rfl helig.1.1
    · rw [if_neg hdead]
      refine h.ages (s.assoc.retransmitInflight_walks timers peer now .zero).same.cap
        (retransmitInflight_ages timers peer now h.marked) ?_
      intro i helig
      refine if_neg ?_
      rintro ⟨r, hr, hseq, -⟩
      -- a collected sequence stands in one cell only, and that cell is not eligible
      obtain ⟨j, hj, hne, hineligible⟩ :=
        retransmitInflight_collected timers peer now h.marked hr
      have hji : j = i := by
        rw [← h.placed j (hj ▸ hne), ← h.placed i (hseq ▸ hne), hj, hseq]
      exact hineligible (hji ▸ helig)
  · rw [if_neg hlife, if_neg hlife]
    exact h

theorem Inv.step (h : s.Inv) (timers : FlowTimers) (e : ℕ × Move) : (s.step timers e).Inv := by
  obtain ⟨now, move⟩ := e
  cases move with
  | send packetSlot wireSize flying took peer =>
    exact h.send timers now packetSlot wireSize flying took peer
  | drain candidateEpoch candidateSlot took peer =>
    exact h.drain timers now candidateEpoch candidateSlot took peer
  | ack rtt entry =>
    exact h.ages (s.assoc.applyAck_walks timers rtt entry now .zero).same.cap
      (s.assoc.applyAck_ages timers rtt entry now .zero) fun _ _ => rfl
  | tick peer took => exact h.tick timers now peer took
  | refund seqs =>
    exact h.ages (s.assoc.refundResendAttempts_walks seqs (fun _ => False) 0).same.cap
      (refundResendAttempts_ages seqs s.assoc) fun _ _ => rfl
  | teardown life =>
    exact h.ages rfl (fun _ => .of_free rfl) fun _ helig => absurd rfl helig.1.1

theorem inv_run (timers : FlowTimers) (oldEpoch : ℕ) (p : OutAssocParams) (start : ℕ)
    (events : List (ℕ × Move)) :
    (run (Tracked.step timers) (created oldEpoch p start) events).Inv :=
  run_invariant (Tracked.step timers) Inv (fun _ _ => True) (fun _ e _ h => h.step timers e)
    (inv_created oldEpoch p start) (along_true _ _ _)

end Tracked

/-! ## The round-trip sample -/

/-- A time less the hold the far side reports, when that is smaller. -/
def lessHold (raw hold : ℕ) : ℕ := if hold < raw then raw - hold else raw

namespace OutAssociation

theorem resolveOutEntry_silent (mode : FlowMode) (e : InFlightEntry) (acc : Resolved) :
    (resolveOutEntry mode true e acc).2.delta.rttSampleMicros = acc.delta.rttSampleMicros ∧
      (resolveOutEntry mode true e acc).2.delta.sawLoss = acc.delta.sawLoss ∧
      (resolveOutEntry mode true e acc).2.delta.lostEpoch = acc.delta.lostEpoch := by
  rw [resolveOutEntry]
  by_cases hidle : e.seq = 0 ∨ e.acked = true
  · rw [if_pos hidle]
    exact ⟨rfl, rfl, rfl⟩
  · rw [if_neg hidle]
    cases isOrdered mode <;> exact ⟨rfl, rfl, rfl⟩

theorem resolveAcked_silent (flow : OutAssociation) (ack : AckEntry) (delta : CongestionDelta) :
    (flow.resolveAcked ack delta).2.resolved.delta.rttSampleMicros = delta.rttSampleMicros ∧
      (flow.resolveAcked ack delta).2.resolved.delta.sawLoss = delta.sawLoss ∧
      (flow.resolveAcked ack delta).2.resolved.delta.lostEpoch = delta.lostEpoch := by
  refine scan_turns
    (P := fun _ (b : AckScan) => b.resolved.delta.rttSampleMicros = delta.rttSampleMicros ∧
      b.resolved.delta.sawLoss = delta.sawLoss ∧ b.resolved.delta.lostEpoch = delta.lostEpoch)
    _ _ _ (ackCell_ackTurn flow.mode ack) ⟨rfl, rfl, rfl⟩ ?_
  rintro i _ acc r hturn - hacc
  cases hturn with
  | kept => exact hacc
  | covered =>
    have hsilent := resolveOutEntry_silent flow.mode (flow.inFlight i) acc.resolved
    exact ⟨hsilent.1.trans hacc.1, hsilent.2.1.trans hacc.2.1, hsilent.2.2.trans hacc.2.2⟩

theorem judgeLoss_rttSample (flow : OutAssociation) (largestAcked : Option ℕ) (now lossDelay : ℕ)
    (delta : CongestionDelta) :
    (flow.judgeLoss largestAcked now lossDelay delta).2.rttSampleMicros =
      delta.rttSampleMicros := by
  cases largestAcked with
  | none => rfl
  | some n =>
    rw [judgeLoss, declareLostBelow]
    split_ifs
    · rfl
    · refine scan_turns
        (P := fun _ (b : CongestionDelta) => b.rttSampleMicros = delta.rttSampleMicros)
        _ _ _ (lostCell_lossTurn n now lossDelay) rfl ?_
      rintro i _ acc r hturn - hacc
      cases hturn <;> exact hacc

theorem noteSample_rttSample (sample : Option (ℕ × ℕ × Bool)) (now ackDelay : ℕ)
    (delta : CongestionDelta) :
    (noteSample sample now ackDelay delta).rttSampleMicros = delta.rttSampleMicros ∨
      ∃ n sentAt, sample = some (n, sentAt, false) ∧ sentAt ≠ 0 ∧
        (noteSample sample now ackDelay delta).rttSampleMicros =
          min (lessHold (now - sentAt) ackDelay) uint32Max := by
  rcases sample with _ | ⟨n, sentAt, resent⟩
  · exact .inl rfl
  · by_cases husable : resent = false ∧ sentAt ≠ 0 ∧ sentAt ≤ now
    · obtain ⟨rfl, hstamp, hpast⟩ := husable
      refine .inr ⟨n, sentAt, rfl, hstamp, ?_⟩
      simp only [noteSample, hstamp, hpast, ne_eq, not_false_eq_true, and_self, if_true, lessHold]
    · rw [noteSample, if_neg husable]
      exact .inl rfl

/-- The packet in cell `i` is the one `ApplyAckRanges` measures: of those the acknowledgement
resolves the scan settles on it, and it was not sent again. -/
def Measures (flow : OutAssociation) (ack : AckEntry) (delta : CongestionDelta) (i : ℕ) : Prop :=
  flow.Addressed ack ∧ (flow.inFlight i).Eligible ∧ Covers ack (flow.inFlight i).seq ∧
    (flow.resolveAcked ack delta).2.sample =
      some ((flow.inFlight i).seq, (flow.inFlight i).sentAtMicros, false)

instance (flow : OutAssociation) (ack : AckEntry) (delta : CongestionDelta) (i : ℕ) :
    Decidable (flow.Measures ack delta i) := inferInstanceAs (Decidable (_ ∧ _ ∧ _ ∧ _))

theorem applyAck_sample (timers : FlowTimers) (rtt : RttEstimate) (flow : OutAssociation)
    (ack : AckEntry) (now : ℕ) (delta : CongestionDelta) :
    (flow.applyAck timers rtt ack now delta).2.1.rttSampleMicros = delta.rttSampleMicros ∨
      ∃ i < flow.inflightCap, flow.Measures ack delta i ∧
        (flow.applyAck timers rtt ack now delta).2.1.rttSampleMicros =
          min (lessHold (now - (flow.inFlight i).sentAtMicros) ack.ackDelay) uint32Max := by
  rw [applyAck]
  split_ifs with haddressed
  · dsimp only
    rw [judgeLoss_rttSample]
    rcases noteSample_rttSample (flow.resolveAcked ack delta).2.sample now ack.ackDelay
        (flow.resolveAcked ack delta).2.resolved.delta with
      hsame | ⟨n, sentAt, hsample, hstamp, hage⟩
    · exact .inl (hsame.trans (flow.resolveAcked_silent ack delta).1)
    · obtain ⟨j, hj, hopen, hcovers, hseq, hsent, honce⟩ :=
        (flow.resolveAcked_reports ack delta).2 n sentAt false hsample
      rw [Bool.or_eq_false_iff, decide_eq_false_iff_not, not_not] at honce
      subst hsent hseq
      exact .inr ⟨j, hj, ⟨haddressed, ⟨hopen, honce.1, honce.2, hstamp⟩, hcovers, hsample⟩, hage⟩
  · exact .inl rfl

end OutAssociation

namespace Tracked
open OutAssociation

/-- The packet an acknowledgement measures was not refused by the kernel, and its age less the
hold is within what 32 bits hold. -/
def SampleFair (s : Tracked) (entry : AckEntry) (now : ℕ) : Prop :=
  ∀ i < s.assoc.inflightCap, s.assoc.Measures entry .zero i → (s.trace i).refused = false ∧
    lessHold (now - (s.assoc.inFlight i).sentAtMicros) entry.ackDelay ≤ uint32Max

instance (s : Tracked) (entry : AckEntry) (now : ℕ) : Decidable (s.SampleFair entry now) :=
  inferInstanceAs (Decidable (∀ i < s.assoc.inflightCap, _))

/-- Karn's rule: in every run, a sample is taken from a packet that was put on the wire exactly
once, and it is the time since that transmission, less the hold. -/
theorem sample_from_single_transmission (timers : FlowTimers) (oldEpoch : ℕ) (p : OutAssocParams)
    (start : ℕ) (events : List (ℕ × Move)) (now : ℕ) (rtt : RttEstimate) (entry : AckEntry)
    (hfair : (run (step timers) (created oldEpoch p start) events).SampleFair entry now)
    (h : ((run (step timers) (created oldEpoch p start) events).assoc.applyAck timers rtt entry now
      .zero).2.1.rttSampleMicros ≠ 0) :
    let s := run (step timers) (created oldEpoch p start) events
    ∃ i < s.assoc.inflightCap, s.assoc.Measures entry .zero i ∧ (s.trace i).sent = 1 ∧
      (s.assoc.applyAck timers rtt entry now .zero).2.1.rttSampleMicros =
        lessHold (now - (s.trace i).stampedAt) entry.ackDelay := by
  intro s
  obtain ⟨i, hi, hmeasures, hsample⟩ :=
    (applyAck_sample timers rtt s.assoc entry now .zero).resolve_left h
  obtain ⟨hresent, hstamp, htaken⟩ := (inv_run timers oldEpoch p start events).once i hmeasures.2.1
  obtain ⟨hoffered, hage⟩ := hfair i hi hmeasures
  refine ⟨i, hi, hmeasures, ?_, ?_⟩
  · rw [Trace.sent, hresent, htaken, hoffered]
    rfl
  · rw [hsample, hstamp, min_eq_left hage]

/-- A packet sent twice, one the kernel refused and one sent; the report of the first and the
last measures the last. -/
theorem sample_from_single_transmission_newest :
    let timers : FlowTimers := ⟨50000, 5000, 5000000⟩
    let peer : PeerBudget := ⟨⟨20000, 1000, 5000, 20000, 1000⟩, 100000, 0, 0, 0, 0, 100000, 0⟩
    let p : OutAssocParams := ⟨0, ⟨[], 0, 0⟩, ⟨[]⟩, 7, .reliableUnordered, 1, 4⟩
    let events : List (ℕ × Move) := [(1000, .send 0 100 true true peer),
      (200000, .tick peer fun _ => true), (210000, .send 1 100 true false peer),
      (210000, .send 2 100 true true peer)]
    let entry : AckEntry := ⟨7, 1, 2, 400, [⟨3, 3⟩]⟩
    let s := run (step timers) (created 0 p 1000) events
    ∃ i < s.assoc.inflightCap, s.assoc.Measures entry .zero i ∧ (s.trace i).sent = 1 ∧
      (s.assoc.applyAck timers peer.rtt entry 230000 .zero).2.1.rttSampleMicros =
        lessHold (230000 - (s.trace i).stampedAt) entry.ackDelay := by
  intro timers peer p events entry
  exact sample_from_single_transmission timers 0 p 1000 events 230000 peer.rtt entry
    (by decide +kernel) (by decide +kernel)

/-- An acknowledgement 5000 seconds after the one transmission reports 2³² - 1 microseconds. -/
theorem sample_cut_off :
    let timers : FlowTimers := ⟨50000, 5000, 5000000⟩
    let peer : PeerBudget := ⟨⟨20000, 1000, 5000, 20000, 1000⟩, 100000, 0, 0, 0, 0, 100000, 0⟩
    let s := run (step timers)
      (created 0 ⟨0, ⟨[], 0, 0⟩, ⟨[]⟩, 7, .reliableUnordered, 1, 4⟩ 1000)
      [(1000, .send 0 100 true true peer)]
    (s.trace 1).sent = 1 ∧
      (s.assoc.applyAck timers peer.rtt ⟨7, 1, 2, 400, []⟩ 5000001000 .zero).2.1.rttSampleMicros =
        4294967295 ∧
      lessHold (5000001000 - (s.trace 1).stampedAt) 400 = 4999999600 := by
  decide +kernel

end Tracked

/-! ## Reports of loss -/

namespace OutAssociation

theorem judgeLoss_lost (flow : OutAssociation) (largestAcked : Option ℕ) (now lossDelay : ℕ)
    (delta : CongestionDelta)
    (h : (flow.judgeLoss largestAcked now lossDelay delta).2.sawLoss = true) :
    (delta.sawLoss = true ∧
        (flow.judgeLoss largestAcked now lossDelay delta).2.lostEpoch = delta.lostEpoch) ∨
      ∃ i < flow.inflightCap, (flow.inFlight i).Outstanding ∧ (flow.inFlight i).lostByAck = false ∧
        (flow.judgeLoss largestAcked now lossDelay delta).1.inFlight i =
          (flow.inFlight i).judgedLost ∧
        (flow.judgeLoss largestAcked now lossDelay delta).2.lostEpoch =
          (flow.inFlight i).congestionEpoch := by
  cases largestAcked with
  | none => exact .inl ⟨h, rfl⟩
  | some n =>
    rw [judgeLoss, declareLostBelow] at h ⊢
    split_ifs at h ⊢ with hmode
    · exact .inl ⟨h, rfl⟩
    · refine scan_turns (lostCell n now lossDelay) flow.inFlight delta
        (P := fun m (b : CongestionDelta) => b.sawLoss = true →
          (delta.sawLoss = true ∧ b.lostEpoch = delta.lostEpoch) ∨
          ∃ i < m, (flow.inFlight i).Outstanding ∧ (flow.inFlight i).lostByAck = false ∧
            (scan (lostCell n now lossDelay) flow.inflightCap flow.inFlight delta).1 i =
              (flow.inFlight i).judgedLost ∧ b.lostEpoch = (flow.inFlight i).congestionEpoch)
        (lostCell_lossTurn n now lossDelay) (fun hsaw => .inl ⟨hsaw, rfl⟩) ?_ h
      intro k _ acc r hturn hcell hacc hloss
      cases hturn with
      | kept => exact (hacc hloss).imp_right (Exists.imp fun i => And.imp_left Nat.lt_succ_of_lt)
      | lost hopen hnew =>
        -- the newest epoch is this cell's, or one that was noted before
        dsimp only [CongestionDelta.noteLoss]
        split_ifs with hahead
        · exact .inr ⟨k, by omega, hopen, hnew, hcell, rfl⟩
        · rw [Bool.or_eq_true, not_or] at hahead
          exact (hacc (by simpa using hahead.1)).imp_right
            (Exists.imp fun i => And.imp_left Nat.lt_succ_of_lt)

theorem applyAck_lost (timers : FlowTimers) (rtt : RttEstimate) (flow : OutAssociation)
    (ack : AckEntry) (now : ℕ) (delta : CongestionDelta)
    (h : (flow.applyAck timers rtt ack now delta).2.1.sawLoss = true) :
    (delta.sawLoss = true ∧
        (flow.applyAck timers rtt ack now delta).2.1.lostEpoch = delta.lostEpoch) ∨
      ∃ i < flow.inflightCap, LostNow flow (flow.applyAck timers rtt ack now delta).1 i ∧
        (flow.inFlight i).Outstanding ∧
        (flow.applyAck timers rtt ack now delta).2.1.lostEpoch =
          (flow.inFlight i).congestionEpoch := by
  rw [applyAck] at h ⊢
  split_ifs at h ⊢ with haddressed
  · dsimp only at h ⊢
    have hsilent := flow.resolveAcked_silent ack delta
    have hnoted : (noteSample (flow.resolveAcked ack delta).2.sample now ack.ackDelay
          (flow.resolveAcked ack delta).2.resolved.delta).sawLoss = delta.sawLoss ∧
        (noteSample (flow.resolveAcked ack delta).2.sample now ack.ackDelay
          (flow.resolveAcked ack delta).2.resolved.delta).lostEpoch = delta.lostEpoch := by
      cases (flow.resolveAcked ack delta).2.sample with
      | none => exact hsilent.2
      | some s =>
        rw [noteSample]
        split_ifs <;> exact hsilent.2
    rcases judgeLoss_lost _ _ _ _ _ h with ⟨hsaw, hepoch⟩ | ⟨i, hi, hopen, hnew, hlost, hepoch⟩
    · exact .inl ⟨hnoted.1.symm.trans hsaw, hepoch.trans hnoted.2⟩
    · have hkept : (flow.resolveAcked ack delta).1.inFlight i = flow.inFlight i := by
        rcases flow.resolveAcked_cell ack delta i with h | ⟨-, h⟩ | ⟨-, h⟩
        · exact h
        · rw [h] at hopen
          cases hopen.2
        · exact absurd h hopen.1
      rw [hkept] at hopen hnew hlost hepoch
      refine .inr ⟨i, hi, ⟨hnew, ?_⟩, hopen, hepoch⟩
      rcases releaseAckedRun_cell ack.recvNext _ _ i with hrun | ⟨hacked, -⟩
      · rw [hrun, hlost]
        exact ⟨hopen, rfl⟩
      · rw [hlost, InFlightEntry.judgedLost, hopen.2] at hacked
        cases hacked
  · exact .inl ⟨h, rfl⟩

/-- A pass frees an outstanding cell only in an unreliable flow, once its timeout has run out. -/
theorem retransmitInflight_freed (timers : FlowTimers) (flow : OutAssociation) (peer : PeerBudget)
    (now : ℕ) {i : ℕ} (hopen : (flow.inFlight i).Outstanding)
    (hfreed : ((flow.retransmitInflight timers peer now .zero).flow.inFlight i).seq = 0) :
    flow.mode = .unreliable ∧ (flow.retransmitInflight timers peer now .zero).assocDead = false ∧
      probeTimeout timers peer.rtt now ≤ elapsed now (flow.inFlight i).sentAtMicros := by
  rw [retransmitInflight] at hfreed ⊢
  split_ifs at hfreed ⊢
  · exact absurd hfreed hopen.1
  · dsimp only at hfreed ⊢
    rw [scan_cell] at hfreed
    split_ifs at hfreed with hi
    · have hturn := retransmitCell_tickTurn timers flow.mode now (probeTimeout timers peer.rtt now)
        (flow.inFlight i) (scan (retransmitCell timers flow.mode now
          (probeTimeout timers peer.rtt now)) i flow.inFlight
          ⟨⟨flow.unresolved, .zero, []⟩, peer, []⟩).2
      generalize retransmitCell timers flow.mode now _ (flow.inFlight i) _ = r at hturn hfreed
      cases hturn with
      | kept => exact absurd hfreed hopen.1
      | reoffered => exact absurd hfreed hopen.1
      | probed =>
        rw [InFlightEntry.probed_seq] at hfreed
        exact absurd hfreed hopen.1
      | timedOut _ hdue hmode => exact ⟨hmode, rfl, hdue⟩
    · exact absurd hfreed hopen.1

theorem resolveOutEntry_lost (mode : FlowMode) {e : InFlightEntry} (hopen : e.Outstanding)
    (acc : Resolved) :
    (resolveOutEntry mode false e acc).1.seq = 0 ∧
      ((resolveOutEntry mode false e acc).2.delta.lostEpoch = e.congestionEpoch ∨
        acc.delta.sawLoss = true ∧
          (resolveOutEntry mode false e acc).2.delta.lostEpoch = acc.delta.lostEpoch) := by
  have hbusy : ¬ (e.seq = 0 ∨ e.acked = true) := by
    rintro (hfree | hacked)
    · exact hopen.1 hfree
    · rw [hopen.2] at hacked
      cases hacked
  rw [resolveOutEntry, if_neg hbusy]
  refine ⟨rfl, ?_⟩
  dsimp only [CongestionDelta.noteLoss]
  cases acc.delta.sawLoss with
  | false => exact .inl rfl
  | true =>
    simp only [Bool.not_true, Bool.false_or, Bool.false_and, Bool.false_eq_true, if_false]
    split_ifs
    · exact .inl rfl
    · exact .inr ⟨trivial, rfl⟩

theorem retransmitInflight_lost (timers : FlowTimers) (flow : OutAssociation) (peer : PeerBudget)
    (now : ℕ) (h : (flow.retransmitInflight timers peer now .zero).delta.sawLoss = true) :
    ∃ i < flow.inflightCap, (flow.inFlight i).Outstanding ∧
      ((flow.retransmitInflight timers peer now .zero).flow.inFlight i).seq = 0 ∧
      (flow.retransmitInflight timers peer now .zero).delta.lostEpoch =
        (flow.inFlight i).congestionEpoch := by
  obtain ⟨n, hn, acc, hacc, hdelta, -⟩ := flow.retransmitInflight_turns timers peer now .zero
    (P := fun m acc => acc.resolved.delta.sawLoss = true → ∃ i < m, (flow.inFlight i).Outstanding ∧
      ((flow.retransmitInflight timers peer now .zero).flow.inFlight i).seq = 0 ∧
      acc.resolved.delta.lostEpoch = (flow.inFlight i).congestionEpoch)
    (by simp [CongestionDelta.zero]) (by
      intro k _ acc r hturn hcell hacc hloss
      have hlater : ∀ {epoch : ℕ}, epoch = acc.resolved.delta.lostEpoch →
          acc.resolved.delta.sawLoss = true → ∃ i < k + 1, (flow.inFlight i).Outstanding ∧
            ((flow.retransmitInflight timers peer now .zero).flow.inFlight i).seq = 0 ∧
            epoch = (flow.inFlight i).congestionEpoch := by
        intro epoch hepoch hsaw
        obtain ⟨i, hi, hopen, hfreed, heq⟩ := hacc hsaw
        exact ⟨i, by omega, hopen, hfreed, hepoch.trans heq⟩
      cases hturn with
      | kept | reoffered | probed => exact hlater rfl hloss
      | timedOut hopen =>
        obtain ⟨hfreed, hepoch | ⟨hsaw, hepoch⟩⟩ := resolveOutEntry_lost flow.mode hopen acc.resolved
        · exact ⟨k, by omega, hopen, hcell ▸ hfreed, hepoch⟩
        · exact hlater hepoch hsaw)
  rw [hdelta] at h ⊢
  obtain ⟨i, hi, hlost⟩ := hacc h
  exact ⟨i, by omega, hlost⟩

end OutAssociation

namespace Tracked
open OutAssociation

/-- The event reports the packet in cell `i` as lost: an acknowledgement judges it so, or its
timeout resolves it. -/
def Reported (timers : FlowTimers) (s : Tracked) (e : ℕ × Move) (i : ℕ) : Prop :=
  i < s.assoc.inflightCap ∧ match e.2 with
  | .ack rtt entry => LostNow s.assoc (s.assoc.applyAck timers rtt entry e.1 .zero).1 i
  | .tick peer _ => s.assoc.life = .opened ∧ (s.assoc.inFlight i).Outstanding ∧
      ((s.assoc.retransmitInflight timers peer e.1 .zero).flow.inFlight i).seq = 0
  | _ => False

instance (timers : FlowTimers) (s : Tracked) (e : ℕ × Move) (i : ℕ) :
    Decidable (Reported timers s e i) := by
  unfold Reported
  split <;> infer_instance

def Unsent (s : Tracked) (i : ℕ) : Prop :=
  (s.assoc.inFlight i).Outstanding ∧ (s.trace i).sent = 0

instance (s : Tracked) (i : ℕ) : Decidable (s.Unsent i) := inferInstanceAs (Decidable (_ ∧ _))

/-- The acknowledgement covers the packet in cell `j`, and that one is past the packet in cell
`i` by so much that the latter is judged lost: by three sequences, or by any number once the loss
delay has run since its send time. -/
def Overtakes (timers : FlowTimers) (rtt : RttEstimate) (flow : OutAssociation) (entry : AckEntry)
    (now j i : ℕ) : Prop :=
  (flow.inFlight j).seq ≠ 0 ∧ Covers entry (flow.inFlight j).seq ∧
    0 < seqAhead (flow.inFlight j).seq (flow.inFlight i).seq ∧
    (lossPacketThreshold ≤ seqAhead (flow.inFlight j).seq (flow.inFlight i).seq ∨
      (flow.inFlight i).sentAtMicros ≠ 0 ∧
        rtt.lossDelayMicros timers.retryIntervalMicros < elapsed now (flow.inFlight i).sentAtMicros)

instance (timers : FlowTimers) (rtt : RttEstimate) (flow : OutAssociation) (entry : AckEntry)
    (now j i : ℕ) : Decidable (Overtakes timers rtt flow entry now j i) :=
  inferInstanceAs (Decidable (_ ∧ _ ∧ _ ∧ _))

/-- The event gives no verdict on a packet the wire has not seen: no packet covered by an
acknowledgement of this generation overtakes it, and the timeout of an unreliable flow that is
open and not dead has not run out for it. -/
def Spares (timers : FlowTimers) (s : Tracked) (e : ℕ × Move) : Prop :=
  match e.2 with
  | .ack rtt entry => s.assoc.Addressed entry → s.assoc.mode ≠ .unreliable →
      ∀ i < s.assoc.inflightCap, s.Unsent i → (s.assoc.inFlight i).lostByAck = false →
      ∀ j < s.assoc.inflightCap, ¬ Overtakes timers rtt s.assoc entry e.1 j i
  | .tick peer _ => s.assoc.life = .opened → s.assoc.mode = .unreliable →
      (s.assoc.retransmitInflight timers peer e.1 .zero).assocDead = false →
      ∀ i < s.assoc.inflightCap, s.Unsent i →
      elapsed e.1 (s.assoc.inFlight i).sentAtMicros < probeTimeout timers peer.rtt e.1
  | _ => True

instance (timers : FlowTimers) (s : Tracked) (e : ℕ × Move) : Decidable (Spares timers s e) := by
  unfold Spares
  split <;> infer_instance

/-- A packet an acknowledgement has judged lost was overtaken by one that it covers. -/
theorem overtaken_of_lostNow {flow : OutAssociation} {timers : FlowTimers} {rtt : RttEstimate}
    {entry : AckEntry} {now i : ℕ}
    (h : LostNow flow (flow.applyAck timers rtt entry now .zero).1 i) :
    flow.Addressed entry ∧ flow.mode ≠ .unreliable ∧ (flow.inFlight i).Outstanding ∧
      ∃ j < flow.inflightCap, Overtakes timers rtt flow entry now j i := by
  obtain ⟨hnew, hopen, hlost⟩ := h
  rcases flow.applyAck_cell entry .zero i timers rtt now with
    heq | hfree | ⟨-, heq⟩ | ⟨hopen', -, -, haddressed, hmode, n, hn, hbelow, hverdict⟩
  · rw [heq, hnew] at hlost
    cases hlost
  · exact absurd hfree hopen.1
  · rw [heq] at hopen
    cases hopen.2
  · obtain ⟨j, hj, hseq, hlive, hcovers⟩ := (flow.resolveAcked_reports entry .zero).1 n hn
    subst hseq
    exact ⟨haddressed, hmode, hopen', j, hj, hlive, hcovers, hbelow, hverdict⟩

/-- No phantom loss: in every run whose events spare the packets the wire has not seen, each
packet that is reported lost had been put on the wire. -/
theorem reported_lost_was_sent (timers : FlowTimers) (oldEpoch : ℕ) (p : OutAssocParams)
    (start : ℕ) (events : List (ℕ × Move))
    (h : Along (step timers) (Spares timers) (created oldEpoch p start) events) :
    Along (step timers) (fun s e => ∀ i, Reported timers s e i → 0 < (s.trace i).sent)
      (created oldEpoch p start) events := by
  refine along_mono (step timers) h ?_
  rintro s ⟨now, move⟩ hspares i ⟨hi, hreported⟩
  rw [Nat.pos_iff_ne_zero]
  intro hunsent
  cases move with
  | ack rtt entry =>
    obtain ⟨haddressed, hmode, hopen, j, hj, hovertakes⟩ := overtaken_of_lostNow hreported
    exact hspares haddressed hmode i hi ⟨hopen, hunsent⟩ hreported.1 j hj hovertakes
  | tick peer took =>
    obtain ⟨hlife, hopen, hfreed⟩ := hreported
    obtain ⟨hmode, halive, hdue⟩ := retransmitInflight_freed timers s.assoc peer now hopen hfreed
    exact absurd (hspares hlife hmode halive i hi ⟨hopen, hunsent⟩) (Nat.not_lt.mpr hdue)
  | send => exact hreported
  | drain => exact hreported
  | refund => exact hreported
  | teardown => exact hreported

/-- A packet held behind the handshake goes out at the first tick; the first of four later ones
is then judged lost by the report of the others. -/
theorem reported_lost_was_sent_parked :
    let timers : FlowTimers := ⟨50000, 5000, 5000000⟩
    let peer : PeerBudget := ⟨⟨20000, 1000, 5000, 20000, 1000⟩, 100000, 0, 0, 0, 0, 100000, 0⟩
    let p : OutAssocParams := ⟨0, ⟨[], 0, 0⟩, ⟨[]⟩, 7, .reliableUnordered, 1, 4⟩
    let before : List (ℕ × Move) := [(1000, .send 0 100 false false peer),
      (105000, .tick peer fun _ => true), (106000, .send 1 100 true true peer),
      (106000, .send 2 100 true true peer), (106000, .send 3 100 true true peer),
      (106000, .send 4 100 true true peer)]
    let report : ℕ × Move := (130000, .ack peer.rtt ⟨7, 1, 2, 0, [⟨3, 5⟩]⟩)
    Along (step timers) (fun s e => ∀ i, Reported timers s e i → 0 < (s.trace i).sent)
        (created 0 p 1000) (before ++ [report]) ∧
      Reported timers (run (step timers) (created 0 p 1000) before) report 2 := by
  intro timers peer p before report
  refine ⟨reported_lost_was_sent timers 0 p 1000 (before ++ [report]) (by decide +kernel), ?_⟩
  decide +kernel

/-- An unreliable packet is held behind the handshake.  The first tick of the session reports it
lost, though it has not left. -/
theorem parked_packet_reported_lost :
    let timers : FlowTimers := ⟨50000, 5000, 5000000⟩
    let peer : PeerBudget := ⟨⟨0, 0, 0, 0, 1050000⟩, 12000, 0, 0, 0, 0, 0, 0⟩
    let p : OutAssocParams := ⟨0, ⟨[], 0, 0⟩, ⟨[]⟩, 7, .unreliable, 1, 4⟩
    let s := run (step timers) (created 0 p 1000000)
      [(1000000, .send 0 100 false false peer)]
    Reported timers s (1060000, .tick peer fun _ => true) 1 ∧ (s.trace 1).sent = 0 ∧
      (s.assoc.retransmitInflight timers peer 1060000 .zero).delta.sawLoss = true := by
  decide +kernel

end Tracked

end BcpFlux.Flow
