import BcpFlux.Flow.NoLoss

/-! # The two windows of a reliable flow agree

No window travels on the wire.  The sender bounds itself by the cells of its
in-flight ring, the receiver by a cursor and a sliding bitmap.  A cell is reused
only once its sequence has been released, and nothing is released that the
receiver has not pushed.
-/

namespace BcpFlux.Flow
open Library Peer

/-! ## The sender stays within its window -/

namespace SenderSide

/-- Sequences are handed out from one without a gap, nothing carries one that was not handed
out, and none was handed out a window past a sequence still missing. -/
structure Windowed (cap : ℕ) (pushed : ℕ → Prop) (x : SenderSide) : Prop where
  cap_eq : x.assoc.inflightCap = cap
  numbered : x.stamped.map Staged.seq = List.range' 1 x.stamped.length
  next : x.assoc.nextSeq = x.stamped.length + 1
  staged : ∀ a body, x.staging a = .ours body → body.seq ≤ x.stamped.length
  sent : ∀ body ∈ x.data, body.seq ≤ x.stamped.length
  ring : ∀ i, (x.assoc.inFlight i).seq ≤ x.stamped.length
  window : ∀ s, 1 ≤ s → s ≤ x.stamped.length → pushed s ∨ x.stamped.length < s + cap

variable {cap : ℕ} {mode : FlowMode} {pushed pushed' : ℕ → Prop} {x : SenderSide}

theorem Windowed.mono (h : Windowed cap pushed x) (himp : ∀ s, pushed s → pushed' s) :
    Windowed cap pushed' x :=
  { h with window := fun s hlo hhi => (h.window s hlo hhi).imp_left (himp s) }

/-- The next cell is free only if the sequence one window back has been pushed. -/
theorem Windowed.window_succ (h : Windowed cap pushed x) (hinv : Inv mode pushed x)
    (hp : IsPow2 cap)
    (hcell : (x.assoc.inFlight (slot x.assoc.inflightCap x.assoc.nextSeq)).seq = 0) (s : ℕ)
    (hlo : 1 ≤ s) (hhi : s ≤ x.stamped.length + 1) :
    pushed s ∨ x.stamped.length + 1 < s + cap := by
  have hpos := hp.pos
  rcases Nat.lt_or_ge x.stamped.length s with hnew | hold
  · exact Or.inr (by omega)
  rcases h.window s hlo hold with hs | hs
  · exact Or.inl hs
  by_cases hedge : x.stamped.length + 1 = s + cap
  · -- the sequence one window back shares the cell, and an unpushed one still occupies it
    have hmem : s ∈ x.stamped.map Staged.seq := by
      rw [h.numbered, List.mem_range'_1]
      omega
    obtain ⟨body, hbody, hseq⟩ := List.mem_map.mp hmem
    rcases hinv.retained body hbody with hpushed | ⟨hheld, -⟩
    · exact Or.inl (hseq ▸ hpushed)
    · rw [h.next, hedge, h.cap_eq, hp.slot_eq, Nat.add_mod_right] at hcell
      rw [hseq, h.cap_eq, hp.slot_eq, hcell] at hheld
      omega
  · exact Or.inr (by omega)

theorem Windowed.recordStamp (h : Windowed cap pushed x) (hinv : Inv mode pushed x)
    (hp : IsPow2 cap) (hfits : x.stamped.length + 2 < 2 ^ 32)
    (hcell : (x.assoc.inFlight (slot x.assoc.inflightCap x.assoc.nextSeq)).seq = 0)
    (rest : List WaitingEntry) (peer : PeerBudget) (packetSlot : Option ℕ) (wireSize : ℕ)
    (flying : Bool) (now a : ℕ) (payload : List UInt8) (flies : Bool) :
    Windowed cap pushed (x.recordStamp
      (({ x.assoc with waiting := rest }).stamp peer packetSlot wireSize flying now).1 a
      ⟨x.assoc.nextSeq, payload⟩ flies) := by
  have hlen : (x.stamped ++ [Staged.mk x.assoc.nextSeq payload]).length = x.stamped.length + 1 := by
    simp
  constructor
  · exact h.cap_eq
  · simp only [SenderSide.recordStamp]
    rw [hlen, List.range'_concat, List.map_append, h.numbered]
    simp [h.next, Nat.add_comm]
  · simp only [SenderSide.recordStamp, OutAssociation.stamp]
    rw [hlen, h.next]
    exact succSeq_of_lt (by omega)
  · intro b body hbody
    simp only [SenderSide.recordStamp, Function.update_apply] at hbody ⊢
    rw [hlen]
    split_ifs at hbody with hb
    · cases hbody
      exact le_of_eq h.next
    · exact Nat.le_succ_of_le (h.staged b body hbody)
  · intro body hbody
    simp only [SenderSide.recordStamp] at hbody ⊢
    rw [hlen]
    have hor : body ∈ x.data ∨ body = ⟨x.assoc.nextSeq, payload⟩ := by
      split_ifs at hbody with hf
      · simpa using hbody
      · exact Or.inl hbody
    rcases hor with hold | rfl
    · exact Nat.le_succ_of_le (h.sent body hold)
    · exact le_of_eq h.next
  · intro i
    simp only [SenderSide.recordStamp, OutAssociation.stamp, put_apply]
    rw [hlen]
    split_ifs with hi
    · exact le_of_eq h.next
    · exact Nat.le_succ_of_le (h.ring i)
  · simp only [SenderSide.recordStamp]
    rw [hlen]
    exact h.window_succ hinv hp hcell

theorem Windowed.release (h : Windowed cap pushed x) {assoc : OutAssociation} {released : List ℕ}
    {ok : ℕ → Prop} {paid paid' : ℕ × ℕ}
    (hrel : OutAssociation.Walks ok x.assoc paid assoc paid' released)
    {data : List Staged} (hdata : ∀ body ∈ data, body.seq ≤ x.stamped.length) :
    Windowed cap pushed { x.release released with assoc := assoc, data := data } := by
  constructor
  · exact hrel.same.cap.trans h.cap_eq
  · exact h.numbered
  · exact hrel.same.next.trans h.next
  · intro a body hbody
    simp only [SenderSide.release] at hbody
    split_ifs at hbody
    exact h.staged a body hbody
  · exact hdata
  · intro i
    rcases hrel.cell i with hs | ⟨hf, -⟩
    · exact hs.1 ▸ h.ring i
    · exact hf.1 ▸ Nat.zero_le _
  · exact h.window

theorem Windowed.restage (h : Windowed cap pushed x) (a : ℕ) (cell : StagingCell)
    (hcell : ∀ body, cell = .ours body → body.seq = 0) :
    Windowed cap pushed { x with staging := Function.update x.staging a cell } where
  __ := h
  staged := by
    intro b body hbody
    simp only [Function.update_apply] at hbody
    split_ifs at hbody
    · exact hcell body hbody ▸ Nat.zero_le _
    · exact h.staged b body hbody

theorem Windowed.teardown (h : Windowed cap pushed x) (life : FlowLifecycle) :
    Windowed cap pushed (x.teardown life) where
  __ := h
  staged := by
    intro a body hbody
    simp only [SenderSide.teardown] at hbody
    split at hbody
    · cases hbody
    · exact h.staged a body hbody
  ring := fun _ => Nat.zero_le _

/-! ### Every event of the sender -/

theorem resentCopies_staged {left : ℕ → Bool} {resends : List (ℕ × ℕ)} {body : Staged}
    (h : body ∈ x.resentCopies left resends) : ∃ a, x.staging a = .ours body := by
  obtain ⟨r, -, hr⟩ := List.mem_filterMap.mp h
  refine ⟨r.1.2, ?_⟩
  split at hr
  · cases hr
    assumption
  · cases hr

theorem Windowed.send (h : Windowed cap pushed x) (hinv : Inv mode pushed x)
    (hmode : mode ≠ .unreliable) (hp : IsPow2 cap) (payload : List UInt8)
    (stagingSlot wireSize : ℕ) (flying left : Bool) (peer : PeerBudget) (now : ℕ)
    (hfits : (x.send payload stagingSlot wireSize flying left peer now).stamped.length + 1 < 2 ^ 32) :
    Windowed cap pushed (x.send payload stagingSlot wireSize flying left peer now) := by
  rw [SenderSide.send] at hfits ⊢
  split
  case isFalse => exact h
  case isTrue hfree =>
    rw [if_pos hfree] at hfits
    have hadmitted := x.assoc.admitOut_admission peer stagingSlot wireSize flying now
    generalize x.assoc.admitOut peer stagingSlot wireSize flying now = r at hadmitted hfits ⊢
    cases hadmitted with
    | refused verdict _ _ hsent hqueued =>
      cases verdict with
      | sent => exact absurd rfl hsent
      | queued => exact absurd rfl hqueued
      | _ => exact h
    | stamped _ _ hroom =>
      have hlen : x.stamped.length + 2 < 2 ^ 32 := by
        simpa [SenderSide.recordStamp] using hfits
      exact h.recordStamp hinv hp hlen (OutAssociation.canSend_cell hroom) x.assoc.waiting _ _
        wireSize flying now stagingSlot payload (flying && left)
    | queued =>
      have hstage := h.restage stagingSlot (.ours ⟨0, payload⟩)
        (by rintro body hb; cases hb; rfl)
      exact { hstage with }
    | evicted _ _ _ _ hunreliable => exact absurd hunreliable (hinv.mode_eq ▸ hmode)

theorem Windowed.drain (h : Windowed cap pushed x) (hinv : Inv mode pushed x)
    (hp : IsPow2 cap) (candidateEpoch candidateSlot : ℕ) (left : Bool) (peer : PeerBudget) (now : ℕ)
    (hfits : (x.drain candidateEpoch candidateSlot left peer now).stamped.length + 1 < 2 ^ 32) :
    Windowed cap pushed (x.drain candidateEpoch candidateSlot left peer now) := by
  rw [SenderSide.drain] at hfits ⊢
  split
  case h_2 => exact h
  case h_1 body hbody =>
    rw [hbody] at hfits
    have hclaim := x.assoc.claimWaiting_claim peer candidateEpoch candidateSlot now
    generalize x.assoc.claimWaiting peer candidateEpoch candidateSlot now = r at hclaim hfits ⊢
    cases hclaim with
    | kept => exact h
    | stamped head rest hwait hhead hroom =>
      have hlen : x.stamped.length + 2 < 2 ^ 32 := by
        simpa [SenderSide.recordStamp] using hfits
      exact h.recordStamp hinv hp hlen (OutAssociation.canSend_cell hroom) rest _ _ _ _ _ _ _ _

section
variable (timers : FlowTimers)

theorem Windowed.tick (h : Windowed cap pushed x)
    (left : ℕ → Bool) (peer : PeerBudget) (now : ℕ) :
    Windowed cap pushed (x.tick timers left peer now) := by
  rw [SenderSide.tick]
  dsimp only
  split_ifs with hlife hdead
  · exact h.teardown _
  · refine h.release (x.assoc.retransmitInflight_refund_walks timers peer now .zero _) ?_
    intro body hbody
    rcases List.mem_append.mp hbody with hold | hcopy
    · exact h.sent body hold
    · obtain ⟨a, ha⟩ := resentCopies_staged hcopy
      exact h.staged a body ha
  · exact h

theorem Windowed.step (h : Windowed cap pushed x)
    (hinv : x.assoc.life ≠ .opened ∨ Inv mode pushed x) (hmode : mode ≠ .unreliable)
    (hp : IsPow2 cap) (e : SenderEvent) (hfits : (x.step timers e).stamped.length + 1 < 2 ^ 32) :
    Windowed cap pushed (x.step timers e) := by
  cases e with
  | send payload stagingSlot wireSize flying left peer now =>
    rcases hinv with hlife | hinv
    · rw [SenderSide.step, send_closed hlife]
      exact h
    · exact h.send hinv hmode hp payload stagingSlot wireSize flying left peer now hfits
  | drain candidateEpoch candidateSlot left peer now =>
    rcases hinv with hlife | hinv
    · rw [SenderSide.step, drain_closed hlife]
      exact h
    · exact h.drain hinv hp candidateEpoch candidateSlot left peer now hfits
  | tick left peer now => exact h.tick timers left peer now
  | foreignLease a =>
    simp only [SenderSide.step]
    split
    · exact h.restage a _ (fun body hb => by cases hb)
    · exact h
  | foreignRelease a =>
    simp only [SenderSide.step]
    split
    · exact h.restage a _ (fun body hb => by cases hb)
    · exact h
  | teardown life =>
    simp only [SenderSide.step]
    split
    · exact h
    · exact h.teardown life

theorem Windowed.acknowledge (h : Windowed cap pushed x) (ack : AckEntry)
    (rtt : RttEstimate) (now : ℕ) : Windowed cap pushed (x.acknowledge timers ack rtt now) :=
  h.release (OutAssociation.applyAck_walks timers rtt x.assoc ack now .zero) h.sent

theorem step_stamped_length (x : SenderSide) (e : SenderEvent) :
    x.stamped.length ≤ (x.step timers e).stamped.length := by
  cases e with
  | send payload stagingSlot wireSize flying left peer now =>
    simp only [SenderSide.step, SenderSide.send]
    split
    · split <;> simp [SenderSide.recordStamp]
    · exact le_refl _
  | drain candidateEpoch candidateSlot left peer now =>
    simp only [SenderSide.step, SenderSide.drain]
    split
    · split <;> simp [SenderSide.recordStamp]
    · exact le_refl _
  | tick left peer now =>
    simp only [SenderSide.step, SenderSide.tick]
    split
    · split <;> exact le_refl _
    · exact le_refl _
  | foreignLease a =>
    simp only [SenderSide.step]
    split <;> exact le_refl _
  | foreignRelease a =>
    simp only [SenderSide.step]
    split <;> exact le_refl _
  | teardown life =>
    simp only [SenderSide.step]
    split <;> exact le_refl _

end

end SenderSide

/-! ## The receiver's window keeps its size -/

namespace InAssociation

structure SameDepth (flow' flow : InAssociation) : Prop where
  bits : flow'.windowBits = flow.windowBits
  cap : flow'.reorderCap = flow.reorderCap

section
variable (env : DeliveryEnv)

theorem drainHoldbackRun_sameDepth (fuel pushed : ℕ) (flow : InAssociation) :
    SameDepth (drainHoldbackRun env fuel pushed flow).1 flow := by
  induction fuel generalizing pushed flow with
  | zero => exact ⟨rfl, rfl⟩
  | succ fuel ih =>
    rcases drainHoldbackRun_succ env fuel pushed flow with ⟨-, heq⟩ | ⟨packetSlot, -, -, heq⟩
    · rw [heq]
      exact ⟨rfl, rfl⟩
    · rw [heq]
      exact ⟨(ih (pushed + 1) flow.popCursor).bits, (ih (pushed + 1) flow.popCursor).cap⟩

theorem deliverOrdered_sameDepth (flow : InAssociation) (incoming seq : ℕ) :
    SameDepth (flow.deliverOrdered env incoming seq).1 flow := by
  rw [deliverOrdered]
  split_ifs
  · exact ⟨by simp, by simp⟩
  · exact ⟨by simp, by simp⟩
  · exact ⟨rfl, rfl⟩
  · have hrun := drainHoldbackRun_sameDepth env (flow.reorderCap + 1) 1 (flow.advanceCursor env seq)
    exact ⟨hrun.bits.trans (by simp [advanceCursor]), hrun.cap.trans (by simp [advanceCursor])⟩
  · exact ⟨by simp [holdPacket], by simp [holdPacket]⟩
  · exact ⟨rfl, rfl⟩
  · exact ⟨by simp, by simp⟩

theorem deliverUnordered_sameDepth (flow : InAssociation) (incoming seq : ℕ) :
    SameDepth (flow.deliverUnordered env incoming seq).1 flow := by
  rcases deliverUnordered_cases env flow incoming seq with ⟨-, same⟩ | ⟨-, same, -⟩
  · exact ⟨same.bits, same.cap⟩
  · exact ⟨same.bits.trans (by simp), same.cap.trans (by simp)⟩

theorem deliverIn_sameDepth (flow : InAssociation)
    (flowId assocEpoch seq incoming : ℕ) :
    SameDepth (flow.deliverIn env flowId assocEpoch seq incoming).1 flow := by
  have hprogress : ∀ r : InAssociation, SameDepth r flow →
      SameDepth (if r.recvNext ≠ flow.recvNext then { r with lastProgressMicros := env.now } else r)
        flow := by
    intro r hr
    split <;> exact ⟨hr.bits, hr.cap⟩
  simp only [deliverIn]
  split
  · apply hprogress
    split
    · exact deliverOrdered_sameDepth env flow incoming seq
    · exact deliverUnordered_sameDepth env flow incoming seq
  · exact ⟨rfl, rfl⟩

end

theorem reclaimJammed_sameDepth (stallTimeout now : ℕ) (flow : InAssociation) :
    SameDepth (flow.reclaimJammed stallTimeout now).1 flow := by
  refine ⟨(reclaimJammed_frame stallTimeout now flow).2.2.2, ?_⟩
  rw [reclaimJammed]
  split
  · simp only [armAck, dropInHoldback]
    split <;> rfl
  · rfl

theorem step_sameDepth (stallTimeout : ℕ) (flow : InAssociation) (e : Event) :
    SameDepth (flow.step stallTimeout e).1 flow := by
  cases e with
  | deliver env flowId assocEpoch seq incoming =>
    exact deliverIn_sameDepth env flow flowId assocEpoch seq incoming
  | reclaim now => exact reclaimJammed_sameDepth stallTimeout now flow
  | flushAck now room =>
    obtain ⟨-, -, -, -, hbits, -, hcap⟩ := takeAckEntry_frame flow now room
    exact ⟨hbits, hcap⟩

theorem step_recvHighest_le (stallTimeout : ℕ) (flow : InAssociation)
    (hmode : isOrdered flow.mode = false) (e : Event) {bound : ℕ} (hhigh : flow.recvHighest ≤ bound)
    (he : ∀ env flowId epoch seq incoming, e = .deliver env flowId epoch seq incoming → seq ≤ bound) :
    (flow.step stallTimeout e).1.recvHighest ≤ bound := by
  cases e with
  | deliver env flowId assocEpoch seq incoming =>
    have hseq := he _ _ _ _ _ rfl
    have hunordered : (flow.deliverUnordered env incoming seq).1.recvHighest ≤ bound := by
      rcases deliverUnordered_cases env flow incoming seq with ⟨-, same⟩ | ⟨-, same, -⟩
      · rw [same.high]
        exact hhigh
      · rw [same.high, commitSeen_recvHighest]
        exact max_le hhigh hseq
    simp only [InAssociation.step, deliverIn, hmode, Bool.false_eq_true, if_false]
    split
    · split <;> exact hunordered
    · exact hhigh
  | reclaim now =>
    simp only [InAssociation.step]
    rw [(reclaimJammed_frame stallTimeout now flow).2.2.1]
    exact hhigh
  | flushAck now room =>
    simp only [InAssociation.step]
    rw [(takeAckEntry_frame flow now room).2.2.2.1]
    exact hhigh

end InAssociation

/-! ## The link -/

namespace Link
open InAssociation

/-- The sequences of a generation end a window short of the 32-bit wrap. -/
def seqLimit : ℕ := 2 ^ 32 - 1024

/-- Both windows have the size of the mode, and each end stays inside what the other tracks. -/
structure Windowed (mode : FlowMode) (l : Link) : Prop where
  sender : l.sender.Windowed (windowFor mode) l.Pushed
  bits : l.receiver.assoc.windowBits = windowFor mode
  cap : l.receiver.assoc.reorderCap = reorderCapFor mode
  ordered : isOrdered mode = true →
    InAssociation.OrderedInv seqLimit l.receiver.assoc l.receiver.pushed
  highest : isOrdered mode = false → l.receiver.assoc.recvHighest ≤ l.sender.stamped.length

variable {mode : FlowMode} {l : Link}

theorem Windowed.atReceiver (timers : FlowTimers) (h : Windowed mode l)
    (hmode : l.receiver.assoc.mode = mode) (e : InAssociation.Event)
    (hfits : l.sender.stamped.length < seqLimit)
    (he : ∀ env flowId epoch seq incoming, e = .deliver env flowId epoch seq incoming →
      seq ≤ l.sender.stamped.length) :
    Windowed mode { l with receiver := l.receiver.step timers e } where
  sender := by
    refine h.sender.mono ?_
    intro s hs
    simp only [Pushed, ReceiverSide.step, List.map_append, List.mem_append]
    exact Or.inl hs
  bits := (step_sameDepth _ _ e).bits.trans h.bits
  cap := (step_sameDepth _ _ e).cap.trans h.cap
  ordered := by
    intro hord
    refine (h.ordered hord).step (by unfold seqLimit; omega) timers.flowStallTimeout e ?_
    intro env flowId epoch seq incoming heq
    exact lt_of_le_of_lt (he env flowId epoch seq incoming heq) hfits
  highest := by
    intro hun
    exact step_recvHighest_le timers.flowStallTimeout _ (by rw [hmode]; exact hun) e
      (h.highest hun) he

theorem Windowed.step (timers : FlowTimers) (h : Windowed mode l) (hinv : Inv mode l)
    (hmode : mode ≠ .unreliable) (e : LinkEvent)
    (hfits : (l.step timers e).sender.stamped.length < seqLimit) :
    Windowed mode (l.step timers e) := by
  cases e with
  | deliver index env flowId assocEpoch incoming =>
    simp only [Link.step] at hfits ⊢
    split
    · exact h
    case h_2 body hbody =>
      rw [hbody] at hfits
      refine h.atReceiver timers hinv.receiver.mode_eq _ hfits ?_
      intro env' flowId' epoch' seq' incoming' heq
      cases heq
      exact h.sender.sent body (List.mem_of_getElem? hbody)
  | report index rtt now =>
    simp only [Link.step]
    split
    · exact h
    · exact ⟨h.sender.acknowledge timers _ rtt now, h.bits, h.cap, h.ordered, h.highest⟩
  | atSender e =>
    have hlen := SenderSide.step_stamped_length timers l.sender e
    refine ⟨?_, h.bits, h.cap, h.ordered, fun hun => le_trans (h.highest hun) hlen⟩
    refine h.sender.step timers hinv.sender hmode (windowFor_isPow2 mode) e ?_
    have hfits' : (l.sender.step timers e).stamped.length < seqLimit := hfits
    unfold seqLimit at hfits'
    omega
  | reclaim now =>
    exact h.atReceiver timers hinv.receiver.mode_eq _ hfits (fun _ _ _ _ _ heq => by cases heq)
  | flushAck now room =>
    exact h.atReceiver timers hinv.receiver.mode_eq _ hfits (fun _ _ _ _ _ heq => by cases heq)

theorem step_stamped_length (timers : FlowTimers) (l : Link) (e : LinkEvent) :
    l.sender.stamped.length ≤ (l.step timers e).sender.stamped.length := by
  cases e with
  | deliver index env flowId assocEpoch incoming =>
    simp only [Link.step]
    split <;> exact le_refl _
  | report index rtt now =>
    simp only [Link.step]
    split <;> exact le_refl _
  | atSender e => exact SenderSide.step_stamped_length timers l.sender e
  | reclaim now => exact le_refl _
  | flushAck now room => exact le_refl _

theorem windowed_fresh (p : OutAssocParams) (oldEpoch : ℕ) (old : InAssociation)
    (receiverSlot : ℕ) (senderAddr : Address) (senderId : BcpId) (now now' : ℕ) :
    Windowed p.mode (fresh p oldEpoch old receiverSlot senderAddr senderId now now') where
  sender := by
    constructor <;> simp [fresh, resetOutAssoc, InFlightEntry.free]
    omega
  bits := rfl
  cap := rfl
  ordered := fun hord => orderedInv_reset old
    ⟨receiverSlot, senderAddr, senderId, p.flowId, p.mode, p.flowEpoch⟩ now' hord
    (by unfold seqLimit; omega)
  highest := fun _ => Nat.zero_le _

theorem windowed_run (timers : FlowTimers) (p : OutAssocParams) (hmode : p.mode ≠ .unreliable)
    (oldEpoch : ℕ) (old : InAssociation) (receiverSlot : ℕ) (senderAddr : Address)
    (senderId : BcpId) (now now' : ℕ) (events : List LinkEvent) :
    let l := run (step timers) (fresh p oldEpoch old receiverSlot senderAddr senderId now now') events
    Inv p.mode l ∧ (l.sender.stamped.length < seqLimit → Windowed p.mode l) := by
  refine run_invariant (step timers)
    (fun l => Inv p.mode l ∧ (l.sender.stamped.length < seqLimit → Windowed p.mode l))
    (fun _ _ => True) ?_ ?_ (along_true _ _ _)
  · rintro l e - ⟨hinv, hwin⟩
    refine ⟨hinv.step timers hmode e, ?_⟩
    intro hfits
    have hlen := step_stamped_length timers l e
    exact (hwin (lt_of_le_of_lt hlen hfits)).step timers hinv hmode e hfits
  · exact ⟨inv_fresh p oldEpoch old receiverSlot senderAddr senderId now now',
      fun _ => windowed_fresh p oldEpoch old receiverSlot senderAddr senderId now now'⟩

theorem Windowed.sent_lt (h : Windowed mode l) (hord : isOrdered mode = true) {body : Staged}
    (hbody : body ∈ l.sender.data) :
    body.seq < l.receiver.assoc.recvNext + l.receiver.assoc.reorderCap := by
  have hcap : l.receiver.assoc.reorderCap = windowFor mode := by
    rw [h.cap, reorderCapFor, if_pos hord]
  have hle := h.sender.sent body hbody
  have horder := h.ordered hord
  have hpos := horder.pos
  rw [hcap]
  -- the cursor itself has not been pushed
  rcases Nat.lt_or_ge l.sender.stamped.length l.receiver.assoc.recvNext with hall | hbehind
  · omega
  rcases h.sender.window _ hpos hbehind with hpushed | hwindow
  · rw [Pushed, horder.log_eq, List.mem_range'_1] at hpushed
    omega
  · omega

theorem Windowed.fresh_at_receiver (h : Windowed mode l) (hinv : Inv mode l)
    (hmode : mode = .reliableUnordered) {s : ℕ} (hlo : 1 ≤ s) (hhi : s ≤ l.sender.stamped.length)
    (hnew : ¬ l.Pushed s) :
    windowFloor l.receiver.assoc.windowBits l.receiver.assoc.recvHighest ≤ s ∧
      l.receiver.assoc.alreadySeen s = false := by
  have hun : isOrdered mode = false := by rw [hmode]; rfl
  have hhigh := h.highest hun
  have hwindow := (h.sender.window s hlo hhi).resolve_left hnew
  have hfloor : windowFloor l.receiver.assoc.windowBits
      l.receiver.assoc.recvHighest ≤ s := by
    rw [h.bits, windowFloor]
    split <;> omega
  refine ⟨hfloor, ?_⟩
  rw [Bool.eq_false_iff]
  intro hseen
  obtain ⟨hle, hbelow | hbit⟩ := alreadySeen_iff.mp hseen
  · omega
  · exact hnew ((hinv.receiver.unordered hun).seen_pushed hmode s ⟨⟨hfloor, hle⟩, hbit⟩)

/-- Over every interleaving of one generation: what is transmitted on an ordered flow lies
inside the reorder window, so the hold-back test never ejects it for being past it, and on
the unordered reliable flow no unresolved sequence the receiver lacks is below its floor or
counted as seen. -/
theorem windows_agree (timers : FlowTimers) (p : OutAssocParams)
    (hreliable : isReliable p.mode = true) (oldEpoch : ℕ) (old : InAssociation)
    (receiverSlot : ℕ) (senderAddr : Address) (senderId : BcpId) (now now' : ℕ)
    (events : List LinkEvent) :
    let l := run (step timers) (fresh p oldEpoch old receiverSlot senderAddr senderId now now') events
    let inbound := l.receiver.assoc
    l.sender.stamped.length < seqLimit →
      (isOrdered p.mode = true → ∀ body ∈ l.sender.data,
        body.seq < inbound.recvNext + inbound.reorderCap ∧
          (inbound.recvNext ≤ body.seq → body.seq < u32 (inbound.recvNext + inbound.reorderCap))) ∧
      (p.mode = .reliableUnordered → ∀ i, let e := l.sender.assoc.inFlight i
        e.seq ≠ 0 → e.acked = false → e.seq ∉ l.receiver.pushed.map Ready.seq →
          InAssociation.windowFloor inbound.windowBits inbound.recvHighest ≤ e.seq ∧
            inbound.alreadySeen e.seq = false) := by
  intro l inbound hfits
  have hmode : p.mode ≠ .unreliable := by
    intro h
    rw [h] at hreliable
    cases hreliable
  obtain ⟨hinv, hwin⟩ := windowed_run timers p hmode oldEpoch old receiverSlot senderAddr senderId
    now now' events
  have hwin : Windowed p.mode l := hwin hfits
  refine ⟨?_, ?_⟩
  · intro hord body hbody
    have hlt := hwin.sent_lt hord hbody
    refine ⟨hlt, ?_⟩
    intro hge
    have hle := hwin.sender.sent body hbody
    have hcap : inbound.reorderCap ≤ 1024 := by
      rw [hwin.cap]
      cases p.mode <;> decide
    -- a packet at or above the cursor keeps the end of the window below the wrap
    have hsmall : inbound.recvNext + inbound.reorderCap < 2 ^ 32 := by
      unfold seqLimit at hfits
      omega
    rw [u32, Nat.mod_eq_of_lt hsmall]
    exact hlt
  · intro hun i e hseq _ hnew
    exact hwin.fresh_at_receiver hinv hun (Nat.one_le_iff_ne_zero.mpr hseq) (hwin.sender.ring i) hnew

/-- Two packets sent, the first lost and the second delivered: on the ordered flow the first
is still inside the reorder window, on the unordered one still new to the bitmap. -/
theorem windows_agree_first_dropped :
    let timers : FlowTimers := ⟨50000, 5000, 5000000⟩
    let peer : PeerBudget := ⟨⟨0, 0, 0, 0, 0⟩, 100000, 0, 0, 0, 0, 100000, 0⟩
    let params : FlowMode → OutAssocParams := fun mode => ⟨0, ⟨[], 0, 0⟩, ⟨[]⟩, 7, mode, 1, 4⟩
    let events : List LinkEvent := [.atSender (.send [65] 3 60 true true peer 10),
      .atSender (.send [66] 4 60 true true peer 11),
      .deliver 1 ⟨20, true, fun _ => true⟩ 7 1 0]
    let ordered := run (step timers)
      (fresh (params .reliableOrdered) 0 .raw 0 ⟨[], 0, 0⟩ ⟨[]⟩ 5 6) events
    let unordered := run (step timers)
      (fresh (params .reliableUnordered) 0 .raw 0 ⟨[], 0, 0⟩ ⟨[]⟩ 5 6) events
    1 < ordered.receiver.assoc.recvNext + ordered.receiver.assoc.reorderCap ∧
      (unordered.sender.assoc.inFlight 1).seq = 1 ∧
      unordered.receiver.assoc.alreadySeen (unordered.sender.assoc.inFlight 1).seq = false := by
  intro timers peer params events
  have hordered := windows_agree timers (params .reliableOrdered) rfl 0 .raw 0 ⟨[], 0, 0⟩ ⟨[]⟩ 5 6
    events (by decide +kernel)
  have hunordered := windows_agree timers (params .reliableUnordered) rfl 0 .raw 0 ⟨[], 0, 0⟩ ⟨[]⟩ 5 6
    events (by decide +kernel)
  have hinside := (hordered.1 rfl ⟨1, [65]⟩ (by decide +kernel)).1
  have hunseen := (hunordered.2 rfl 1 (by decide +kernel) (by decide +kernel) (by decide +kernel)).2
  exact ⟨hinside, by decide +kernel, hunseen⟩
end Link

end BcpFlux.Flow
