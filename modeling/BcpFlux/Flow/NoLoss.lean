import BcpFlux.Flow.Link
import BcpFlux.Flow.SendRing

/-! # A reliable flow loses nothing

The sender forgets a packet only on the strength of a report, and a report only
names what the receiver has already handed to its ready lane.  The sender's half
is an invariant relative to any set `pushed` of sequences; the receiver's half
says its reports stay inside that set.
-/

namespace BcpFlux.Flow
open Library Peer Function OutAssociation

/-! ## The sending side -/

namespace SenderSide

/-- The ring still holds this body under its sequence, with its staging copy. -/
def Holds (x : SenderSide) (body : Staged) : Prop :=
  let e := x.assoc.inFlight (slot x.assoc.inflightCap body.seq)
  e.seq = body.seq ∧ ∃ a, e.packetSlot = some a ∧ x.staging a = .ours body

/-- Ownership of staging slots, and what has been forgotten at most. -/
structure Inv (mode : FlowMode) (pushed : ℕ → Prop) (x : SenderSide) : Prop where
  mode_eq : x.assoc.mode = mode
  next_ne : x.assoc.nextSeq ≠ 0
  stamped_ne : ∀ body ∈ x.stamped, body.seq ≠ 0
  retained : ∀ body ∈ x.stamped, pushed body.seq ∨ x.Holds body
  ring_unique : ∀ i j a, (x.assoc.inFlight i).packetSlot = some a →
    (x.assoc.inFlight j).packetSlot = some a → i = j
  ring_ours : ∀ i a, (x.assoc.inFlight i).packetSlot = some a → ∃ body, x.staging a = .ours body
  waiting_ours : ∀ w ∈ x.assoc.waiting, ∃ body, x.staging w.packetSlot = .ours body
  waiting_nodup : (x.assoc.waiting.map WaitingEntry.packetSlot).Nodup
  waiting_ring : ∀ w ∈ x.assoc.waiting, ∀ i, (x.assoc.inFlight i).packetSlot ≠ some w.packetSlot

variable {mode : FlowMode} {pushed pushed' : ℕ → Prop} {x : SenderSide}

theorem Inv.mono (h : Inv mode pushed x) (himp : ∀ s, pushed s → pushed' s) :
    Inv mode pushed' x :=
  { h with retained := fun body hb => (h.retained body hb).imp_left (himp _) }

theorem succSeq_ne_zero (n : ℕ) : succSeq n ≠ 0 := by
  rw [succSeq]
  split <;> omega

variable {a : ℕ}

theorem Inv.recordStamp (h : Inv mode pushed x) {rest : List WaitingEntry}
    (hrest : rest.Sublist x.assoc.waiting)
    (hcell : (x.assoc.inFlight (slot x.assoc.inflightCap x.assoc.nextSeq)).seq = 0)
    (hring : ∀ i, (x.assoc.inFlight i).packetSlot ≠ some a)
    (hwait : ∀ w ∈ rest, w.packetSlot ≠ a) (peer : PeerBudget) (wireSize : ℕ)
    (flying : Bool) (now : ℕ) (payload : List UInt8) (flies : Bool) :
    Inv mode pushed (x.recordStamp
      (({ x.assoc with waiting := rest }).stamp peer (some a) wireSize flying now).1 a
      ⟨x.assoc.nextSeq, payload⟩ flies) where
  mode_eq := h.mode_eq
  next_ne := succSeq_ne_zero _
  stamped_ne := by
    intro body hb
    rcases List.mem_append.mp hb with hb | hb
    · exact h.stamped_ne body hb
    · rw [List.mem_singleton.mp hb]
      exact h.next_ne
  retained := by
    intro body hb
    rcases List.mem_append.mp hb with hb | hb
    · refine (h.retained body hb).imp_right ?_
      rintro ⟨hseq, a', hslot, hbody⟩
      -- the stamped cell was free, so it is not the cell of an earlier body
      have hne : slot x.assoc.inflightCap body.seq ≠ slot x.assoc.inflightCap x.assoc.nextSeq := by
        intro heq
        rw [heq, hcell] at hseq
        exact h.stamped_ne body hb hseq.symm
      have ha : a' ≠ a := fun heq => hring _ (heq ▸ hslot)
      refine ⟨?_, a', ?_, ?_⟩
      · simpa [SenderSide.recordStamp, stamp, put_of_ne _ _ hne] using hseq
      · simpa [SenderSide.recordStamp, stamp, put_of_ne _ _ hne] using hslot
      · simpa [SenderSide.recordStamp, ha] using hbody
    · rw [List.mem_singleton.mp hb]
      refine Or.inr ⟨?_, a, ?_, ?_⟩
      · simp [SenderSide.recordStamp, stamp, stampedEntry]
      · simp [SenderSide.recordStamp, stamp, stampedEntry]
      · simp [SenderSide.recordStamp]
  ring_unique := by
    intro i j b hi hj
    simp only [SenderSide.recordStamp, stamp, put_apply] at hi hj
    split_ifs at hi hj with h1 h2 h2
    · rw [h1, h2]
    · simp only [stampedEntry, Option.some.injEq] at hi
      exact absurd hj (hi ▸ hring j)
    · simp only [stampedEntry, Option.some.injEq] at hj
      exact absurd hi (hj ▸ hring i)
    · exact h.ring_unique i j b hi hj
  ring_ours := by
    intro i b hi
    simp only [SenderSide.recordStamp, stamp, put_apply] at hi ⊢
    by_cases hb : b = a
    · exact ⟨_, by rw [hb, update_self]⟩
    · rw [update_of_ne hb]
      split_ifs at hi with h1
      · simp only [stampedEntry, Option.some.injEq] at hi
        exact absurd hi.symm hb
      · exact h.ring_ours i b hi
  waiting_ours := by
    intro w hw
    obtain ⟨body, hbody⟩ := h.waiting_ours w (hrest.subset hw)
    refine ⟨body, ?_⟩
    simp only [SenderSide.recordStamp]
    rw [update_of_ne (hwait w hw)]
    exact hbody
  waiting_nodup := h.waiting_nodup.sublist (hrest.map _)
  waiting_ring := by
    intro w hw i hi
    simp only [SenderSide.recordStamp, stamp, put_apply] at hi
    split_ifs at hi with h1
    · simp only [stampedEntry, Option.some.injEq] at hi
      exact hwait w hw hi.symm
    · exact h.waiting_ring w (hrest.subset hw) i hi

/-- A walk over the ring that only frees pushed sequences keeps the promise, and the slots
it gives back are nobody's. -/
theorem Inv.release (h : Inv mode pushed x) {assoc : OutAssociation} {released : List ℕ}
    {ok : ℕ → Prop} {paid paid' : ℕ × ℕ}
    (hrel : OutAssociation.Walks ok x.assoc paid assoc paid' released)
    (hok : ∀ s, s ≠ 0 → ok s → pushed s) (data : List Staged) :
    Inv mode pushed { x.release released with assoc := assoc, data := data } := by
  -- a slot still in the new ring was in the old one, under the same cell
  have hold : ∀ i a, (assoc.inFlight i).packetSlot = some a →
      (x.assoc.inFlight i).packetSlot = some a := by
    intro i a hi
    rcases hrel.cell i with hs | ⟨hf, -⟩
    · rwa [← hs.2]
    · rw [hf.2] at hi
      cases hi
  -- so none of the released slots is still referred to
  have hkept : ∀ i a, (assoc.inFlight i).packetSlot = some a → a ∉ released := by
    intro i a hi ha
    obtain ⟨j, hj, hj'⟩ := hrel.given a ha
    have hij := h.ring_unique i j a (hold i a hi) hj
    rw [← hij, hi] at hj'
    cases hj'
  have hwaitkept : ∀ w ∈ x.assoc.waiting, w.packetSlot ∉ released := by
    intro w hw ha
    obtain ⟨j, hj, -⟩ := hrel.given _ ha
    exact h.waiting_ring w hw j hj
  constructor
  · exact hrel.same.mode.trans h.mode_eq
  · intro hzero
    exact h.next_ne (hrel.same.next ▸ hzero)
  · exact h.stamped_ne
  · intro body hb
    rcases h.retained body hb with hp | ⟨hseq, a, hslot, hbody⟩
    · exact Or.inl hp
    rcases hrel.cell (slot x.assoc.inflightCap body.seq) with hs | ⟨-, hokseq⟩
    · refine Or.inr ⟨?_, a, ?_, ?_⟩
      · rw [hrel.same.cap, hs.1]
        exact hseq
      · rw [hrel.same.cap, hs.2]
        exact hslot
      · have ha := hkept _ a (hs.2.trans hslot)
        simpa [SenderSide.release, ha] using hbody
    · rw [hseq] at hokseq
      exact Or.inl (hok _ (h.stamped_ne body hb) hokseq)
  · intro i j a hi hj
    exact h.ring_unique i j a (hold i a hi) (hold j a hj)
  · intro i a hi
    obtain ⟨body, hbody⟩ := h.ring_ours i a (hold i a hi)
    exact ⟨body, by simpa [SenderSide.release, hkept i a hi] using hbody⟩
  · intro w hw
    have hw' : w ∈ x.assoc.waiting := hrel.same.waiting ▸ hw
    obtain ⟨body, hbody⟩ := h.waiting_ours w hw'
    exact ⟨body, by simpa [SenderSide.release, hwaitkept w hw'] using hbody⟩
  · rw [hrel.same.waiting]
    exact h.waiting_nodup
  · intro w hw i hi
    exact h.waiting_ring w (hrel.same.waiting ▸ hw) i (hold i _ hi)

theorem Inv.foreign (h : Inv mode pushed x) (ha : ∀ body, x.staging a ≠ .ours body)
    (cell : StagingCell) :
    Inv mode pushed { x with staging := update x.staging a cell } := by
  have hkeep : ∀ b body, x.staging b = .ours body →
      update x.staging a cell b = .ours body := by
    intro b body hb
    rw [update_of_ne]
    · exact hb
    · intro heq
      exact ha body (heq ▸ hb)
  constructor
  · exact h.mode_eq
  · exact h.next_ne
  · exact h.stamped_ne
  · intro body hb
    refine (h.retained body hb).imp_right ?_
    rintro ⟨hseq, b, hslot, hbody⟩
    exact ⟨hseq, b, hslot, hkeep b body hbody⟩
  · exact h.ring_unique
  · intro i b hi
    obtain ⟨body, hbody⟩ := h.ring_ours i b hi
    exact ⟨body, hkeep b body hbody⟩
  · intro w hw
    obtain ⟨body, hbody⟩ := h.waiting_ours w hw
    exact ⟨body, hkeep _ body hbody⟩
  · exact h.waiting_nodup
  · exact h.waiting_ring

theorem Inv.unused (h : Inv mode pushed x) (ha : ∀ body, x.staging a ≠ .ours body) :
    (∀ i, (x.assoc.inFlight i).packetSlot ≠ some a) ∧
      ∀ w ∈ x.assoc.waiting, w.packetSlot ≠ a := by
  constructor
  · intro i hi
    obtain ⟨body, hbody⟩ := h.ring_ours i a hi
    exact ha body hbody
  · intro w hw heq
    obtain ⟨body, hbody⟩ := h.waiting_ours w hw
    exact ha body (heq ▸ hbody)

theorem Inv.enqueue (h : Inv mode pushed x) (ha : ∀ body, x.staging a ≠ .ours body)
    (wireSize now : ℕ) (body : Staged) :
    Inv mode pushed { x with
      assoc := x.assoc.enqueueWaiting a wireSize now
      staging := update x.staging a (.ours body) } := by
  obtain ⟨hring, hwait⟩ := h.unused ha
  have hf := h.foreign ha (.ours body)
  constructor
  · exact h.mode_eq
  · exact h.next_ne
  · exact h.stamped_ne
  · exact hf.retained
  · exact h.ring_unique
  · exact hf.ring_ours
  · intro w hw
    rcases List.mem_append.mp hw with hw | hw
    · exact hf.waiting_ours w hw
    · exact ⟨body, by simp [List.mem_singleton.mp hw]⟩
  · simp only [enqueueWaiting, List.map_append, List.map_cons, List.map_nil]
    refine List.Nodup.append h.waiting_nodup (List.nodup_singleton _) ?_
    intro b hb hb'
    obtain ⟨w, hw, hwb⟩ := List.mem_map.mp hb
    exact hwait w hw (hwb.trans (List.mem_singleton.mp hb'))
  · intro w hw i hi
    rcases List.mem_append.mp hw with hw | hw
    · exact h.waiting_ring w hw i hi
    · rw [List.mem_singleton.mp hw] at hi
      exact hring i hi

/-! ### Every event of the sender -/

theorem Inv.send (h : Inv mode pushed x) (hmode : mode ≠ .unreliable) (payload : List UInt8)
    (stagingSlot wireSize : ℕ) (flying left : Bool) (peer : PeerBudget) (now : ℕ) :
    Inv mode pushed (x.send payload stagingSlot wireSize flying left peer now) := by
  rw [SenderSide.send]
  split
  case isFalse => exact h
  case isTrue hfree =>
    have ha : ∀ body, x.staging stagingSlot ≠ .ours body := by simp [hfree]
    have hreliable : x.assoc.mode ≠ .unreliable := h.mode_eq ▸ hmode
    have hadmitted := x.assoc.admitOut_admission peer stagingSlot wireSize flying now
    generalize x.assoc.admitOut peer stagingSlot wireSize flying now = r at hadmitted ⊢
    cases hadmitted with
    | refused verdict _ _ hsent hqueued =>
      cases verdict with
      | sent => exact absurd rfl hsent
      | queued => exact absurd rfl hqueued
      | _ => exact h
    | stamped _ _ hroom =>
      rw [if_neg hreliable]
      exact h.recordStamp (List.Sublist.refl _) (canSend_cell hroom) (h.unused ha).1
        (h.unused ha).2 _ wireSize flying now payload (flying && left)
    | queued => exact h.enqueue ha wireSize now _
    | evicted _ _ _ _ hunreliable => exact absurd hunreliable hreliable

theorem Inv.drain (h : Inv mode pushed x) (hmode : mode ≠ .unreliable)
    (candidateEpoch candidateSlot : ℕ) (left : Bool) (peer : PeerBudget) (now : ℕ) :
    Inv mode pushed (x.drain candidateEpoch candidateSlot left peer now) := by
  rw [SenderSide.drain]
  split
  case h_2 => exact h
  case h_1 body hbody =>
    have hclaim := x.assoc.claimWaiting_claim peer candidateEpoch candidateSlot now
    generalize x.assoc.claimWaiting peer candidateEpoch candidateSlot now = r at hclaim ⊢
    cases hclaim with
    | kept => exact h
    | stamped head rest hwait hhead hroom =>
      rw [if_pos rfl, if_neg (h.mode_eq ▸ hmode)]
      have hnodup := h.waiting_nodup
      rw [hwait, List.map_cons, List.nodup_cons, hhead] at hnodup
      have hmem : head ∈ x.assoc.waiting := by simp [hwait]
      exact h.recordStamp (by rw [hwait]; exact List.sublist_cons_self head rest)
        (canSend_cell hroom) (fun i hi => h.waiting_ring head hmem i (hhead ▸ hi))
        (fun w hw heq => hnodup.1 (List.mem_map.mpr ⟨w, hw, heq⟩)) _ _ _ _ _ _

theorem Inv.tick (timers : FlowTimers) (h : Inv mode pushed x) (hmode : mode ≠ .unreliable)
    (left : ℕ → Bool) (peer : PeerBudget) (now : ℕ) :
    (x.tick timers left peer now).assoc.life ≠ .opened ∨
      Inv mode pushed (x.tick timers left peer now) := by
  rw [SenderSide.tick]
  dsimp only
  split_ifs with hlife hdead
  · exact Or.inl (by simp [SenderSide.teardown, tearDown])
  · exact Or.inr (h.release (x.assoc.retransmitInflight_refund_walks timers peer now .zero _)
      (fun _ _ hunreliable => absurd hunreliable (h.mode_eq ▸ hmode)) _)
  · exact Or.inr h

end SenderSide

/-! ## The receiving side -/

def Covered (next : ℕ) (log : List Ready) : Prop :=
  ∀ s, s ≠ 0 → s < next → s ∈ log.map Ready.seq

theorem Covered.push {next : ℕ} {log : List Ready} (h : Covered next log) (packetSlot : ℕ) :
    Covered (succSeq next) (log ++ [⟨next, packetSlot⟩]) := by
  intro s hs hlt
  have hle : s ≤ next := by
    unfold succSeq u32 at hlt
    split at hlt <;> omega
  rw [List.map_append, List.mem_append]
  by_cases heq : s = next
  · exact Or.inr (by simp [heq])
  · exact Or.inl (h s hs (by omega))

namespace InAssociation

theorem drainHoldbackRun_covered (env : DeliveryEnv) (fuel pushed : ℕ) (flow : InAssociation)
    (log : List Ready) (h : Covered flow.recvNext log) :
    let r := drainHoldbackRun env fuel pushed flow
    Covered r.1.recvNext (log ++ r.2) ∧ r.1.mode = flow.mode := by
  induction fuel generalizing pushed flow log with
  | zero => exact ⟨by simpa [drainHoldbackRun] using h, rfl⟩
  | succ fuel ih =>
    rcases drainHoldbackRun_succ env fuel pushed flow with ⟨-, heq⟩ | ⟨packetSlot, -, -, heq⟩
    · rw [heq]
      exact ⟨by simpa using h, rfl⟩
    · have hpush : Covered flow.popCursor.recvNext (log ++ [⟨flow.recvNext, packetSlot⟩]) :=
        h.push packetSlot
      obtain ⟨hcov, hmode⟩ := ih (pushed + 1) flow.popCursor _ hpush
      rw [heq]
      exact ⟨by simpa using hcov, hmode⟩

theorem deliverOrdered_covered (env : DeliveryEnv) (flow : InAssociation) (incoming seq : ℕ)
    (log : List Ready) (h : Covered flow.recvNext log) :
    let r := flow.deliverOrdered env incoming seq
    Covered r.1.recvNext (log ++ r.2) ∧ r.1.mode = flow.mode := by
  rw [deliverOrdered]
  split_ifs with hlt heq hroom hpush hhold hfree
  · exact ⟨by simpa using h, by simp⟩
  · exact ⟨by simpa using h, by simp⟩
  · exact ⟨by simpa using h, rfl⟩
  · subst heq
    have hnext : Covered (flow.advanceCursor env flow.recvNext).recvNext
        (log ++ [⟨flow.recvNext, incoming⟩]) := h.push incoming
    obtain ⟨hcov, hmode⟩ := drainHoldbackRun_covered env (flow.reorderCap + 1) 1
      (flow.advanceCursor env flow.recvNext) _ hnext
    refine ⟨by simpa using hcov, hmode.trans ?_⟩
    simp [advanceCursor]
  · exact ⟨by simpa [holdPacket] using h, by simp [holdPacket]⟩
  · exact ⟨by simpa using h, rfl⟩
  · exact ⟨by simpa using h, by simp⟩

theorem step_covered (stallTimeout : ℕ) (flow : InAssociation) (e : Event) (log : List Ready)
    (h : Covered flow.recvNext log) :
    Covered (flow.step stallTimeout e).1.recvNext (log ++ (flow.step stallTimeout e).2) ∧
      (flow.step stallTimeout e).1.mode = flow.mode := by
  cases e with
  | deliver env flowId assocEpoch seq incoming =>
    have hbranch : ∀ r : InAssociation × List Ready,
        Covered r.1.recvNext (log ++ r.2) ∧ r.1.mode = flow.mode →
        Covered (if r.1.recvNext ≠ flow.recvNext then { r.1 with lastProgressMicros := env.now }
          else r.1).recvNext (log ++ r.2) ∧
        (if r.1.recvNext ≠ flow.recvNext then { r.1 with lastProgressMicros := env.now }
          else r.1).mode = flow.mode := by
      intro r hr
      split <;> exact hr
    simp only [InAssociation.step, deliverIn]
    split
    · apply hbranch
      split
      · exact deliverOrdered_covered env flow incoming seq log h
      · rcases deliverUnordered_cases env flow incoming seq with ⟨-, same⟩ | ⟨-, same, -⟩
        · refine ⟨?_, same.mode⟩
          intro s hs hlt
          rw [same.next] at hlt
          rw [List.map_append, List.mem_append]
          exact Or.inl (h s hs hlt)
        · refine ⟨?_, same.mode.trans (by simp)⟩
          intro s hs hlt
          rw [same.next, commitSeen_recvNext] at hlt
          rw [List.map_append, List.mem_append]
          exact Or.inl (h s hs hlt)
    · exact ⟨by simpa using h, rfl⟩
  | reclaim now =>
    obtain ⟨hnext, hmode, -, -⟩ := reclaimJammed_frame stallTimeout now flow
    refine ⟨?_, hmode⟩
    simpa [InAssociation.step, hnext] using h
  | flushAck now room =>
    obtain ⟨hnext, hmode, -⟩ := takeAckEntry_frame flow now room
    refine ⟨?_, hmode⟩
    simpa [InAssociation.step, hnext] using h

theorem takeAckEntry_honest {flow : InAssociation} {now room : ℕ} {ack : AckEntry}
    (h : (flow.takeAckEntry now room).2 = some ack) :
    ack.recvNext = flow.recvNext ∧ ∀ s, seqInRanges s ack.ranges = true →
      flow.Marked s := by
  rw [takeAckEntry] at h
  dsimp only at h
  split at h
  · split at h
    · simp only [Option.some.injEq] at h
      subst h
      refine ⟨rfl, ?_⟩
      intro s hs
      simp only [seqInRanges, List.any_eq_true, decide_eq_true_eq] at hs
      obtain ⟨range, hmem, hlo, hhi⟩ := hs
      exact ((buildAckRanges_runs { flow with ackImmediate := false } _).run range hmem).2.1 s hlo hhi
    · cases h
  · cases h

end InAssociation

namespace ReceiverSide

/-- The cursor and every report ever made stay inside what was pushed. -/
structure Inv (mode : FlowMode) (y : ReceiverSide) : Prop where
  mode_eq : y.assoc.mode = mode
  covered : Covered y.assoc.recvNext y.pushed
  unordered : isOrdered mode = false → InAssociation.UnorderedInv mode y.assoc y.pushed
  acks : ∀ ack ∈ y.acks, ∀ s, s ≠ 0 → OutAssociation.Acknowledged mode ack s →
    s ∈ y.pushed.map Ready.seq

variable {mode : FlowMode} {y : ReceiverSide}

theorem Inv.report (h : Inv mode y) (hmode : mode ≠ .unreliable) {now room : ℕ} {ack : AckEntry}
    (hack : (y.assoc.takeAckEntry now room).2 = some ack) (s : ℕ) (hs : s ≠ 0)
    (hok : OutAssociation.Acknowledged mode ack s) : s ∈ y.pushed.map Ready.seq := by
  obtain ⟨hnext, hranges⟩ := InAssociation.takeAckEntry_honest hack
  rcases hok with hbelow | ⟨hun, hin⟩
  · exact h.covered s hs (hnext ▸ hbelow)
  · have hrel : mode = .reliableUnordered := by
      cases mode with
      | reliableUnordered => rfl
      | unreliable => exact absurd rfl hmode
      | reliableOrdered => cases hun
      | reliableOrderedBulk => cases hun
    exact (h.unordered hun).seen_pushed hrel s (hranges s hin)

theorem Inv.step (timers : FlowTimers) (h : Inv mode y) (hmode : mode ≠ .unreliable)
    (e : InAssociation.Event) : Inv mode (y.step timers e) := by
  obtain ⟨hcov, hsame⟩ := y.assoc.step_covered timers.flowStallTimeout e y.pushed h.covered
  constructor
  · exact hsame.trans h.mode_eq
  · exact hcov
  · intro hun
    exact (h.unordered hun).step timers.flowStallTimeout e
  · intro ack hack s hs hok
    have hpushed : s ∈ y.pushed.map Ready.seq := by
      cases e with
      | deliver env flowId assocEpoch seq incoming => exact h.acks ack hack s hs hok
      | reclaim now => exact h.acks ack hack s hs hok
      | flushAck now room =>
        rcases List.mem_append.mp hack with hold | hnew
        · exact h.acks ack hold s hs hok
        · exact h.report hmode (Option.mem_toList.mp hnew) s hs hok
    simp only [ReceiverSide.step, List.map_append, List.mem_append]
    exact Or.inl hpushed

end ReceiverSide

/-! ## The link -/

namespace Link

/-- The set the sender may forget is what the receiver has pushed. -/
def Pushed (l : Link) (s : ℕ) : Prop := s ∈ l.receiver.pushed.map Ready.seq

/-- Both halves together; a sender that is no longer open promises nothing. -/
structure Inv (mode : FlowMode) (l : Link) : Prop where
  receiver : l.receiver.Inv mode
  sender : l.sender.assoc.life ≠ .opened ∨ l.sender.Inv mode l.Pushed

variable {mode : FlowMode} {l : Link}

theorem Inv.atReceiver (timers : FlowTimers) (h : Inv mode l) (hmode : mode ≠ .unreliable)
    (e : InAssociation.Event) : Inv mode { l with receiver := l.receiver.step timers e } where
  receiver := h.receiver.step timers hmode e
  sender := by
    refine h.sender.imp_right fun hs => hs.mono ?_
    intro s hp
    simp only [Pushed, ReceiverSide.step, List.map_append, List.mem_append]
    exact Or.inl hp

end Link

namespace SenderSide

variable {x : SenderSide}

theorem send_closed (h : x.assoc.life ≠ .opened) (payload : List UInt8)
    (stagingSlot wireSize : ℕ) (flying left : Bool) (peer : PeerBudget) (now : ℕ) :
    x.send payload stagingSlot wireSize flying left peer now = x := by
  rw [SenderSide.send]
  split
  · simp only [admitOut, h, ne_eq, not_false_eq_true, if_true]
  · rfl

theorem drain_closed (h : x.assoc.life ≠ .opened)
    (candidateEpoch candidateSlot : ℕ) (left : Bool) (peer : PeerBudget) (now : ℕ) :
    x.drain candidateEpoch candidateSlot left peer now = x := by
  rw [SenderSide.drain]
  split
  · simp only [claimWaiting, h, and_false, if_false, Bool.false_eq_true]
  · rfl

theorem step_life (timers : FlowTimers) (x : SenderSide) (h : x.assoc.life ≠ .opened)
    (e : SenderEvent) : (x.step timers e).assoc.life ≠ .opened := by
  cases e with
  | send payload stagingSlot wireSize flying left peer now =>
    rw [SenderSide.step, send_closed h]
    exact h
  | drain candidateEpoch candidateSlot left peer now =>
    rw [SenderSide.step, drain_closed h]
    exact h
  | tick left peer now =>
    simp only [SenderSide.step, SenderSide.tick, h, if_false]
    exact h
  | foreignLease a =>
    simp only [SenderSide.step]
    split <;> exact h
  | foreignRelease a =>
    simp only [SenderSide.step]
    split <;> exact h
  | teardown life =>
    simp only [SenderSide.step]
    split
    · exact h
    · assumption

section
variable {mode : FlowMode} {pushed : ℕ → Prop} (timers : FlowTimers)

theorem Inv.step
    (h : Inv mode pushed x) (hmode : mode ≠ .unreliable) (e : SenderEvent) :
    (x.step timers e).assoc.life ≠ .opened ∨ Inv mode pushed (x.step timers e) := by
  cases e with
  | send payload stagingSlot wireSize flying left peer now =>
    exact Or.inr (h.send hmode payload stagingSlot wireSize flying left peer now)
  | drain candidateEpoch candidateSlot left peer now =>
    exact Or.inr (h.drain hmode candidateEpoch candidateSlot left peer now)
  | tick left peer now => exact h.tick timers hmode left peer now
  | foreignLease a =>
    simp only [SenderSide.step]
    split
    · exact Or.inr (h.foreign (by simp [*]) _)
    · exact Or.inr h
  | foreignRelease a =>
    simp only [SenderSide.step]
    split
    · exact Or.inr (h.foreign (by simp [*]) _)
    · exact Or.inr h
  | teardown life =>
    simp only [SenderSide.step]
    split
    · exact Or.inr h
    · exact Or.inl (by assumption)

theorem Inv.acknowledge (h : Inv mode pushed x) (ack : AckEntry) (rtt : RttEstimate) (now : ℕ)
    (hok : ∀ s, s ≠ 0 → OutAssociation.Acknowledged mode ack s → pushed s) :
    Inv mode pushed (x.acknowledge timers ack rtt now) := by
  have hrel := applyAck_walks timers rtt x.assoc ack now .zero
  rw [h.mode_eq] at hrel
  exact h.release hrel hok _

end

end SenderSide

namespace Link

theorem Inv.step {mode : FlowMode} {l : Link} (timers : FlowTimers) (h : Inv mode l)
    (hmode : mode ≠ .unreliable) (e : LinkEvent) : Inv mode (l.step timers e) := by
  cases e with
  | deliver index env flowId assocEpoch incoming =>
    simp only [Link.step]
    split
    · exact h
    · exact h.atReceiver timers hmode _
  | report index rtt now =>
    simp only [Link.step]
    split
    · exact h
    case h_2 ack hack =>
      refine ⟨h.receiver, ?_⟩
      rcases h.sender with hlife | hs
      · refine Or.inl ?_
        simp only [SenderSide.acknowledge]
        rw [(applyAck_walks timers rtt l.sender.assoc ack now .zero).same.life]
        exact hlife
      · exact Or.inr (hs.acknowledge timers ack rtt now
          (h.receiver.acks ack (List.mem_of_getElem? hack)))
  | atSender e =>
    refine ⟨h.receiver, ?_⟩
    rcases h.sender with hlife | hs
    · exact Or.inl (l.sender.step_life timers hlife e)
    · exact hs.step timers hmode e
  | reclaim now => exact h.atReceiver timers hmode _
  | flushAck now room => exact h.atReceiver timers hmode _

theorem inv_fresh (p : OutAssocParams) (oldEpoch : ℕ) (old : InAssociation) (receiverSlot : ℕ)
    (senderAddr : Address) (senderId : BcpId) (now now' : ℕ) :
    Inv p.mode (fresh p oldEpoch old receiverSlot senderAddr senderId now now') where
  receiver := by
    constructor
    · rfl
    · intro s hs hlt
      simp only [fresh, resetInAssoc] at hlt
      omega
    · intro hun
      exact InAssociation.unorderedInv_reset old
        ⟨receiverSlot, senderAddr, senderId, p.flowId, p.mode, p.flowEpoch⟩ now' hun
    · simp [fresh]
  sender := by
    refine Or.inr ?_
    constructor <;> simp [fresh, resetOutAssoc, InFlightEntry.free]

/-- In every state of every interleaving in which the sending association is still open,
each stamped body the receiver has not pushed is in the in-flight ring under its sequence,
its staging copy intact. -/
theorem reliable_no_loss (timers : FlowTimers) (p : OutAssocParams)
    (hreliable : isReliable p.mode = true) (oldEpoch : ℕ) (old : InAssociation)
    (receiverSlot : ℕ) (senderAddr : Address) (senderId : BcpId) (now now' : ℕ)
    (events : List LinkEvent) :
    let l := run (step timers) (fresh p oldEpoch old receiverSlot senderAddr senderId now now') events
    l.sender.assoc.life = .opened → ∀ body ∈ l.sender.stamped,
      body.seq ∉ l.receiver.pushed.map Ready.seq → l.sender.Holds body := by
  intro l hopen body hbody hnew
  have hmode : p.mode ≠ .unreliable := by
    intro h
    rw [h] at hreliable
    cases hreliable
  have hinv : Inv p.mode l := run_invariant (step timers) (Inv p.mode) (fun _ _ => True)
    (fun l e _ h => h.step timers hmode e)
    (inv_fresh p oldEpoch old receiverSlot senderAddr senderId now now') (along_true _ _ _)
  have hsender := hinv.sender.resolve_left (not_not_intro hopen)
  exact (hsender.retained body hbody).resolve_left hnew

/-- The first of two packets is lost, the second arrives and is reported: the first is
still held. -/
theorem reliable_no_loss_first_dropped :
    let timers : FlowTimers := ⟨50000, 5000, 5000000⟩
    let peer : PeerBudget := ⟨⟨0, 0, 0, 0, 0⟩, 100000, 0, 0, 0, 0, 100000, 0⟩
    let p : OutAssocParams := ⟨0, ⟨[], 0, 0⟩, ⟨[]⟩, 7, .reliableOrdered, 1, 4⟩
    let events : List LinkEvent := [.atSender (.send [65] 3 60 true true peer 10),
      .atSender (.send [66] 4 60 true true peer 11),
      .deliver 1 ⟨20, true, fun _ => true⟩ 7 1 0, .flushAck 21 100, .report 0 ⟨0, 0, 0, 0, 0⟩ 30]
    let l := run (step timers) (fresh p 0 .raw 0 ⟨[], 0, 0⟩ ⟨[]⟩ 5 6) events
    isReliable p.mode = true ∧ l.sender.assoc.life = .opened ∧ l.receiver.acks ≠ [] ∧
      l.sender.Holds ⟨1, [65]⟩ := by
  intro timers peer p events l
  refine ⟨rfl, by decide +kernel, by decide, ?_⟩
  exact reliable_no_loss timers p rfl 0 .raw 0 ⟨[], 0, 0⟩ ⟨[]⟩ 5 6 events (by decide +kernel) ⟨1, [65]⟩
    (by decide +kernel) (by decide +kernel)

end Link

end BcpFlux.Flow
