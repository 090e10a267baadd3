import BcpFlux.Flow.SendRing
import BcpFlux.Library.Runs

/-! # When a sending association is declared dead

`RetransmitInflight` fails an association that owes packets once its death clock
`lastResolvedMicros` is older than the death bound.  The clock is written at
creation and by acknowledgements, never by a stamp, so time the association spent
idle counts as silence.
-/

namespace BcpFlux.Flow
open Library Peer

/-! ## Lifetimes -/

structure Moment where
  time : ℕ
  unresolved : ℕ
  /-- The event was an acknowledgement that resolved something. -/
  ackResolved : Bool
deriving DecidableEq, Repr

/-- A sending association under a monotonic clock, with its history newest first. -/
structure Lifetime where
  assoc : OutAssociation
  clock : ℕ
  history : List Moment

inductive Action where
  | send (packetSlot wireSize : ℕ) (flying : Bool) (peer : PeerBudget)
  | drain (candidateEpoch candidateSlot : ℕ) (peer : PeerBudget)
  | ack (rtt : RttEstimate) (entry : AckEntry)
  | tick (peer : PeerBudget)
  | refund (seqs : List ℕ)
  /-- Closed by the application, rejected, or swept with its peer. -/
  | teardown (life : FlowLifecycle)

namespace OutAssociation

def act (timers : FlowTimers) (flow : OutAssociation) (now : ℕ) : Action → OutAssociation
  | .send packetSlot wireSize flying peer =>
    (flow.admitOut peer packetSlot wireSize flying now).2.1
  | .drain candidateEpoch candidateSlot peer =>
    (flow.claimWaiting peer candidateEpoch candidateSlot now).2.1
  | .ack rtt entry => (flow.applyAck timers rtt entry now .zero).1
  | .tick peer =>
    if flow.life = .opened then
      let r := flow.retransmitInflight timers peer now .zero
      if r.assocDead then flow.tearDown .failed else r.flow
    else flow
  | .refund seqs => flow.refundResendAttempts seqs
  | .teardown life => flow.tearDown life

end OutAssociation

def Action.isAck : Action → Bool
  | .ack _ _ => true
  | _ => false

namespace Lifetime

/-- The association as `CreateAssociation` leaves it. -/
def created (oldEpoch : ℕ) (p : OutAssocParams) (now : ℕ) : Lifetime :=
  ⟨resetOutAssoc oldEpoch p now, now, [⟨now, 0, false⟩]⟩

/-- Let `wait` microseconds pass, then act. -/
def step (timers : FlowTimers) (s : Lifetime) (e : ℕ × Action) : Lifetime :=
  let now := s.clock + e.1
  let assoc := s.assoc.act timers now e.2
  { assoc := assoc
    clock := now
    history := ⟨now, assoc.unresolved,
      e.2.isAck && decide (assoc.unresolved < s.assoc.unresolved)⟩ :: s.history }

end Lifetime

/-! ## Silence -/

/-- Throughout `(now - bound, now]` something was owed and no acknowledgement resolved
anything: walk back from the newest moment until one lies at or before the span's start. -/
def SilentFor (now bound : ℕ) : List Moment → Prop
  | [] => False
  | m :: earlier => 0 < m.unresolved ∧
      (m.time + bound ≤ now ∨ m.ackResolved = false ∧ SilentFor now bound earlier)

instance SilentFor.decidable (now bound : ℕ) : (h : List Moment) → Decidable (SilentFor now bound h)
  | [] => isFalse id
  | m :: earlier =>
    have := SilentFor.decidable now bound earlier
    inferInstanceAs (Decidable (0 < m.unresolved ∧
      (m.time + bound ≤ now ∨ m.ackResolved = false ∧ SilentFor now bound earlier)))

/-- When the stretch of owing that the history ends with began: the time of the packet
that ended the last idle period. -/
def owedSince : List Moment → ℕ
  | [] => 0
  | [m] => m.time
  | m :: m' :: earlier => if 0 < m'.unresolved then owedSince (m' :: earlier) else m.time

def Owing : List Moment → Prop
  | [] => False
  | m :: _ => 0 < m.unresolved

def Ordered (h : List Moment) : Prop := h.Pairwise fun m m' => m'.time ≤ m.time

theorem owedSince_le {bound now : ℕ} (h : List Moment) (hne : h ≠ [])
    (hall : ∀ m ∈ h, m.time + bound ≤ now) : owedSince h + bound ≤ now := by
  induction h with
  | nil => exact absurd rfl hne
  | cons m earlier ih =>
    cases earlier with
    | nil => exact hall m (List.mem_singleton_self m)
    | cons m' earlier =>
      simp only [owedSince]
      split
      · exact ih (List.cons_ne_nil m' earlier) fun x hx => hall x (List.mem_cons_of_mem m hx)
      · exact hall m List.mem_cons_self

/-- Silence is an owing stretch old enough, with every resolving report older still. -/
theorem silentFor_iff {now bound : ℕ} {h : List Moment} (hord : Ordered h) :
    SilentFor now bound h ↔ Owing h ∧ owedSince h + bound ≤ now ∧
      ∀ m ∈ h, m.ackResolved = true → m.time + bound ≤ now := by
  induction h with
  | nil => simp [SilentFor, Owing]
  | cons m earlier ih =>
    have hle : ∀ m' ∈ earlier, m'.time ≤ m.time := (List.pairwise_cons.mp hord).1
    have ih := ih (List.pairwise_cons.mp hord).2
    apply and_congr_right
    intro howing
    by_cases hspan : m.time + bound ≤ now
    · -- the newest moment is at or before the start, and so is all that came before
      have hall : ∀ m' ∈ m :: earlier, m'.time + bound ≤ now := by
        intro m' hm'
        rcases List.mem_cons.mp hm' with rfl | hm'
        · exact hspan
        · have := hle m' hm'
          omega
      have hsince := owedSince_le (m :: earlier) (List.cons_ne_nil m earlier) hall
      exact ⟨fun _ => ⟨hsince, fun m' hm' _ => hall m' hm'⟩, fun _ => Or.inl hspan⟩
    · rw [ih]
      cases earlier with
      | nil => simp [Owing, owedSince, hspan]
      | cons m' earlier =>
        simp only [owedSince, Owing, hspan, false_or, List.forall_mem_cons (p := fun x : Moment =>
          x.ackResolved = true → x.time + bound ≤ now) (a := m)]
        by_cases hold : 0 < m'.unresolved
        · simp only [hold, true_and, if_true]
          cases m.ackResolved <;> simp
        · simp [hold, hspan]

/-! ## What moves the death clock -/

namespace OutAssociation

theorem admitOut_lastResolved (flow : OutAssociation) (peer : PeerBudget)
    (packetSlot wireSize : ℕ) (flying : Bool) (now : ℕ) :
    (flow.admitOut peer packetSlot wireSize flying now).2.1.lastResolvedMicros =
      flow.lastResolvedMicros := by
  have hadmitted := flow.admitOut_admission peer packetSlot wireSize flying now
  generalize flow.admitOut peer packetSlot wireSize flying now = r at hadmitted ⊢
  cases hadmitted <;> rfl

theorem claimWaiting_lastResolved (flow : OutAssociation) (peer : PeerBudget)
    (candidateEpoch candidateSlot now : ℕ) :
    (flow.claimWaiting peer candidateEpoch candidateSlot now).2.1.lastResolvedMicros =
      flow.lastResolvedMicros := by
  have hclaim := flow.claimWaiting_claim peer candidateEpoch candidateSlot now
  generalize flow.claimWaiting peer candidateEpoch candidateSlot now = r at hclaim ⊢
  cases hclaim <;> rfl

theorem refundResendAttempts_lastResolved (seqs : List ℕ) (flow : OutAssociation) :
    (flow.refundResendAttempts seqs).lastResolvedMicros = flow.lastResolvedMicros := by
  induction seqs generalizing flow with
  | nil => rfl
  | cons seq seqs ih =>
    refine (ih (flow.refundOne seq)).trans ?_
    unfold refundOne
    dsimp only
    split <;> rfl

theorem resolveAcked_none (flow : OutAssociation) (ack : AckEntry) (delta : CongestionDelta)
    (h : (flow.resolveAcked ack delta).2.largestAcked = none) :
    (flow.resolveAcked ack delta).1.unresolved = flow.unresolved := by
  refine scan_turns (P := fun _ (acc : AckScan) => acc.largestAcked = none →
    acc.resolved.unresolved = flow.unresolved) _ _ _ (ackCell_ackTurn flow.mode ack)
    (fun _ => rfl) ?_ h
  rintro i _ acc r hturn - ih hnone
  cases hturn with
  | kept => exact ih hnone
  | covered => cases hnone

theorem releaseAckedRun_clock (remoteRecvNext steps : ℕ) (flow : OutAssociation) :
    (releaseAckedRun remoteRecvNext steps flow).1.lastResolvedMicros = flow.lastResolvedMicros ∧
      (releaseAckedRun remoteRecvNext steps flow).1.unresolved = flow.unresolved := by
  induction steps generalizing flow with
  | zero => exact ⟨rfl, rfl⟩
  | succ steps ih =>
    rw [releaseAckedRun]
    dsimp only
    split_ifs
    · exact ih flow.releaseBase
    · exact ⟨rfl, rfl⟩
    · exact ih { flow with ackBase := succSeq flow.ackBase }
    · exact ⟨rfl, rfl⟩

theorem judgeLoss_clock (flow : OutAssociation) (largestAcked : Option ℕ) (now lossDelay : ℕ)
    (delta : CongestionDelta) :
    (flow.judgeLoss largestAcked now lossDelay delta).1.unresolved = flow.unresolved ∧
      (largestAcked = none ∧ (flow.judgeLoss largestAcked now lossDelay delta).1 = flow ∨
        (flow.judgeLoss largestAcked now lossDelay delta).1.lastResolvedMicros = now) := by
  cases largestAcked with
  | none => exact ⟨rfl, Or.inl ⟨rfl, rfl⟩⟩
  | some n =>
    simp only [judgeLoss, declareLostBelow]
    split <;> exact ⟨rfl, Or.inr rfl⟩

theorem applyAck_clock (timers : FlowTimers) (rtt : RttEstimate) (flow : OutAssociation)
    (ack : AckEntry) (now : ℕ) (delta : CongestionDelta) :
    ((flow.applyAck timers rtt ack now delta).1.unresolved = flow.unresolved ∧
        (flow.applyAck timers rtt ack now delta).1.lastResolvedMicros =
          flow.lastResolvedMicros) ∨
      (flow.applyAck timers rtt ack now delta).1.lastResolvedMicros = now := by
  rw [applyAck]
  split
  · dsimp only
    rw [(releaseAckedRun_clock _ _ _).1, (releaseAckedRun_clock _ _ _).2]
    obtain ⟨hcount, ⟨hnone, hsame⟩ | hnow⟩ := judgeLoss_clock (flow.resolveAcked ack delta).1
      (flow.resolveAcked ack delta).2.largestAcked now
      (rtt.lossDelayMicros timers.retryIntervalMicros)
      (noteSample (flow.resolveAcked ack delta).2.sample now ack.ackDelay
        (flow.resolveAcked ack delta).2.resolved.delta)
    · refine Or.inl ⟨hcount.trans (resolveAcked_none flow ack delta hnone), ?_⟩
      rw [hsame]
      rfl
    · exact Or.inr hnow
  · exact Or.inl ⟨rfl, rfl⟩

theorem act_clock (timers : FlowTimers) (flow : OutAssociation) (now : ℕ) (a : Action) :
    ((flow.act timers now a).lastResolvedMicros = flow.lastResolvedMicros ∨
        (flow.act timers now a).lastResolvedMicros = now) ∧
      (a.isAck = true → (flow.act timers now a).unresolved < flow.unresolved →
        (flow.act timers now a).lastResolvedMicros = now) := by
  cases a with
  | send packetSlot wireSize flying peer =>
    exact ⟨Or.inl (admitOut_lastResolved flow peer packetSlot wireSize flying now), by simp [Action.isAck]⟩
  | drain candidateEpoch candidateSlot peer =>
    exact ⟨Or.inl (claimWaiting_lastResolved flow peer candidateEpoch candidateSlot now),
      by simp [Action.isAck]⟩
  | ack rtt entry =>
    rcases flow.applyAck_clock timers rtt entry now .zero with ⟨hcount, hclock⟩ | hclock
    · refine ⟨Or.inl hclock, ?_⟩
      intro _ hlt
      simp only [act, hcount] at hlt
      omega
    · exact ⟨Or.inr hclock, fun _ _ => hclock⟩
  | tick peer =>
    refine ⟨Or.inl ?_, by simp [Action.isAck]⟩
    simp only [act, retransmitInflight]
    split
    · split
      · simp [tearDown]
      · rfl
    · rfl
  | refund seqs =>
    exact ⟨Or.inl (refundResendAttempts_lastResolved seqs flow), by simp [Action.isAck]⟩
  | teardown life => exact ⟨Or.inl rfl, by simp [Action.isAck]⟩

end OutAssociation

/-! ## The verdict against the record -/

namespace Lifetime

structure Inv (s : Lifetime) : Prop where
  ordered : Ordered s.history
  past : ∀ m ∈ s.history, m.time ≤ s.clock
  newest : Owing s.history ↔ 0 < s.assoc.unresolved
  acks : ∀ m ∈ s.history, m.ackResolved = true → m.time ≤ s.assoc.lastResolvedMicros
  clock_le : s.assoc.lastResolvedMicros ≤ s.clock

theorem inv_created (oldEpoch : ℕ) (p : OutAssocParams) (now : ℕ) :
    (created oldEpoch p now).Inv where
  ordered := List.pairwise_singleton _ _
  past := by simp [created]
  newest := Iff.rfl
  acks := by simp [created]
  clock_le := le_refl now

theorem Inv.step (timers : FlowTimers) {s : Lifetime} (h : s.Inv) (e : ℕ × Action) :
    (s.step timers e).Inv := by
  obtain ⟨hmove, hack⟩ := s.assoc.act_clock timers (s.clock + e.1) e.2
  have hclock : s.assoc.lastResolvedMicros ≤
      (s.assoc.act timers (s.clock + e.1) e.2).lastResolvedMicros := by
    have := h.clock_le
    rcases hmove with hm | hm <;> omega
  constructor
  · refine List.pairwise_cons.mpr ⟨?_, h.ordered⟩
    intro m hm
    have := h.past m hm
    simp only
    omega
  · intro m hm
    rcases List.mem_cons.mp hm with rfl | hm
    · exact le_refl _
    · have := h.past m hm
      simp only [Lifetime.step]
      omega
  · exact Iff.rfl
  · intro m hm hres
    rcases List.mem_cons.mp hm with rfl | hm
    · simp only [Bool.and_eq_true, decide_eq_true_eq] at hres
      exact le_of_eq (hack hres.1 hres.2).symm
    · exact le_trans (h.acks m hm hres) hclock
  · have := h.clock_le
    simp only [Lifetime.step]
    rcases hmove with hm | hm <;> omega

theorem inv_run (timers : FlowTimers) (oldEpoch : ℕ) (p : OutAssocParams) (start : ℕ)
    (events : List (ℕ × Action)) : (run (step timers) (created oldEpoch p start) events).Inv :=
  run_invariant (step timers) Inv (fun _ _ => True) (fun _ e _ h => h.step timers e)
    (inv_created oldEpoch p start) (along_true _ _ _)

theorem retransmitInflight_dead (timers : FlowTimers) (flow : OutAssociation) (peer : PeerBudget)
    (now : ℕ) (delta : CongestionDelta) :
    (flow.retransmitInflight timers peer now delta).assocDead = true ↔
      0 < flow.unresolved ∧
        OutAssociation.deathBound timers peer.rtt < elapsed now flow.lastResolvedMicros := by
  rw [OutAssociation.retransmitInflight]
  split
  case isTrue h => simpa using h
  case isFalse h => simpa only [Bool.false_eq_true, false_iff] using h

/-- At every tick of every run: a death verdict stands for a full death bound of silence
exactly when the tick does not find the clock expired over a stretch of owing that began
within the bound. -/
theorem death_silence_iff (timers : FlowTimers) (oldEpoch : ℕ) (p : OutAssocParams) (start : ℕ)
    (events : List (ℕ × Action)) (wait : ℕ) (peer : PeerBudget) (delta : CongestionDelta) :
    let s := run (step timers) (created oldEpoch p start) events
    let now := s.clock + wait
    let bound := OutAssociation.deathBound timers peer.rtt
    ((s.assoc.retransmitInflight timers peer now delta).assocDead = true →
        SilentFor now bound s.history) ↔
      ¬ (0 < s.assoc.unresolved ∧ bound < elapsed now s.assoc.lastResolvedMicros ∧
        now < owedSince s.history + bound) := by
  intro s now bound
  have hinv : s.Inv := inv_run timers oldEpoch p start events
  rw [retransmitInflight_dead, silentFor_iff hinv.ordered, hinv.newest]
  constructor
  · rintro hsilent ⟨howing, hexpired, hrecent⟩
    omega
  · intro hcond hdead
    have hsince : owedSince s.history + bound ≤ now := by
      by_contra hlt
      exact hcond ⟨hdead.1, hdead.2, by omega⟩
    refine ⟨hdead.1, hsince, ?_⟩
    intro m hm hres
    have hlast := hinv.acks m hm hres
    have hexp := hdead.2
    rw [elapsed_eq] at hexp
    omega

/-- One packet acknowledged, ten idle seconds, one new packet: the tick a microsecond
later declares the association dead. -/
theorem death_after_idle :
    let timers : FlowTimers := ⟨50000, 5000, 5000000⟩
    let peer : PeerBudget := ⟨⟨20000, 1000, 5000, 20000, 1000⟩, 100000, 0, 0, 0, 0, 100000, 0⟩
    let events : List (ℕ × Action) := [(0, .send 0 100 true peer),
      (20000, .ack peer.rtt ⟨7, 1, 2, 0, []⟩), (10000000, .send 1 100 true peer)]
    let s := run (step timers)
      (created 0 ⟨0, ⟨[], 0, 0⟩, ⟨[]⟩, 7, .reliableOrdered, 1, 4⟩ 1000) events
    (s.assoc.retransmitInflight timers peer (s.clock + 1) .zero).assocDead = true ∧
      s.assoc.unresolved = 1 ∧ owedSince s.history = s.clock ∧
      ¬ SilentFor (s.clock + 1) (OutAssociation.deathBound timers peer.rtt) s.history := by
  decide +kernel

end Lifetime

end BcpFlux.Flow
