import BcpFlux.Flow.SeenBitmap

/-! # Order and exactly-once delivery at the receiver

One generation of a receiving association, driven by arbitrary arrivals, jam
reclaims and acknowledgement flushes.  Ordered modes hand the ready lane exactly
`1, 2, …, recvNext - 1`; the unordered reliable mode never repeats a sequence;
the unreliable mode only moves forward.
-/

namespace BcpFlux.Flow
open Library

namespace InAssociation

/-! ## The events of one generation -/

/-- What may happen to a receiving association between two resets. -/
inductive Event where
  | deliver (env : DeliveryEnv) (flowId assocEpoch seq incoming : ℕ)
  | reclaim (now : ℕ)
  | flushAck (now room : ℕ)

def step (stallTimeout : ℕ) (flow : InAssociation) : Event → InAssociation × List Ready
  | .deliver env flowId assocEpoch seq incoming =>
    flow.deliverIn env flowId assocEpoch seq incoming
  | .reclaim now => ((flow.reclaimJammed stallTimeout now).1, [])
  | .flushAck now room => ((flow.takeAckEntry now room).1, [])

def Event.BelowWrap : Event → Prop
  | .deliver _ _ _ seq _ => seq < 2 ^ 32 - 1024
  | _ => True

/-! ## Draining the hold-back -/

def HeldBelow (bound : ℕ) (flow : InAssociation) : Prop :=
  ∀ i, (flow.holdback i).packetSlot ≠ none → (flow.holdback i).seq < bound

variable {bound : ℕ} {flow : InAssociation}

theorem HeldBelow.put_free (h : flow.HeldBelow bound)
    (cap n : ℕ) (i : ℕ) (hi : (put cap flow.holdback n .free i).packetSlot ≠ none) :
    (put cap flow.holdback n .free i).seq < bound := by
  rw [put_apply] at hi ⊢
  split_ifs at hi ⊢ with heq
  · exact absurd rfl hi
  · exact h i hi

/-- The loop of the drain ends here: nothing is held at the cursor, or the lane is full. -/
def DrainStops (env : DeliveryEnv) (pushed : ℕ) (flow : InAssociation) : Prop :=
  flow.reorderCap = 0 ∨ (flow.holdback (slot flow.reorderCap flow.recvNext)).packetSlot = none ∨
    (flow.holdback (slot flow.reorderCap flow.recvNext)).seq ≠ flow.recvNext ∨
    env.push pushed = false

theorem drainHoldbackRun_succ (env : DeliveryEnv) (fuel pushed : ℕ) (flow : InAssociation) :
    (DrainStops env pushed flow ∧ drainHoldbackRun env (fuel + 1) pushed flow = (flow, [])) ∨
    ∃ packetSlot, 0 < flow.reorderCap ∧
      flow.holdback (slot flow.reorderCap flow.recvNext) = ⟨flow.recvNext, some packetSlot⟩ ∧
      drainHoldbackRun env (fuel + 1) pushed flow =
        ((drainHoldbackRun env fuel (pushed + 1) flow.popCursor).1,
          ⟨flow.recvNext, packetSlot⟩ ::
            (drainHoldbackRun env fuel (pushed + 1) flow.popCursor).2) := by
  by_cases hcap : flow.reorderCap = 0
  · exact Or.inl ⟨Or.inl hcap, by simp [drainHoldbackRun, hcap]⟩
  rcases hcell : flow.holdback (slot flow.reorderCap flow.recvNext) with ⟨seq, _ | packetSlot⟩
  · refine Or.inl ⟨Or.inr (Or.inl (by rw [hcell])), ?_⟩
    simp [drainHoldbackRun, hcap, hcell]
  by_cases hseq : seq = flow.recvNext
  · by_cases hpush : env.push pushed = true
    · refine Or.inr ⟨packetSlot, by omega, by rw [hseq], ?_⟩
      simp [drainHoldbackRun, hcap, hcell, hseq, hpush]
    · refine Or.inl ⟨Or.inr (Or.inr (Or.inr (by simpa using hpush))), ?_⟩
      simp [drainHoldbackRun, hcap, hcell, hpush]
  · refine Or.inl ⟨Or.inr (Or.inr (Or.inl (by rw [hcell]; exact hseq))), ?_⟩
    simp [drainHoldbackRun, hcap, hcell, hseq]

theorem drainHoldbackRun_run (hbound : bound < 2 ^ 32) (env : DeliveryEnv)
    (fuel pushed : ℕ) (flow : InAssociation) (hheld : flow.HeldBelow bound)
    (hnext : flow.recvNext ≤ bound) :
    let r := drainHoldbackRun env fuel pushed flow
    r.2.map Ready.seq = List.range' flow.recvNext r.2.length ∧
      r.1.recvNext = flow.recvNext + r.2.length ∧ r.1.recvNext ≤ bound ∧
      r.1.HeldBelow bound ∧ r.1.mode = flow.mode := by
  induction fuel generalizing pushed flow with
  | zero => exact ⟨rfl, rfl, hnext, hheld, rfl⟩
  | succ fuel ih =>
    rcases drainHoldbackRun_succ env fuel pushed flow with ⟨-, heq⟩ | ⟨packetSlot, -, hcell, heq⟩
    · rw [heq]
      exact ⟨rfl, rfl, hnext, hheld, rfl⟩
    · have hlt : flow.recvNext < bound := by
        have := hheld (slot flow.reorderCap flow.recvNext) (by simp [hcell])
        rwa [hcell] at this
      have hsucc : flow.popCursor.recvNext = flow.recvNext + 1 := succSeq_of_lt (by omega)
      have hpop : flow.popCursor.HeldBelow bound := hheld.put_free _ _
      obtain ⟨h1, h2, h3, h4, h5⟩ := ih (pushed + 1) flow.popCursor hpop (by omega)
      rw [heq]
      refine ⟨?_, ?_, h3, h4, h5⟩
      · simp only [List.map_cons, List.length_cons, List.range'_succ, h1, hsucc]
      · simp only [List.length_cons, h2, hsucc]
        omega

/-! ## Ordered modes -/

/-- The lane has received exactly the sequences below the cursor, in order. -/
structure OrderedInv (bound : ℕ) (flow : InAssociation) (log : List Ready) : Prop where
  ordered : isOrdered flow.mode = true
  pos : 1 ≤ flow.recvNext
  next_le : flow.recvNext ≤ bound
  held : flow.HeldBelow bound
  log_eq : log.map Ready.seq = List.range' 1 (flow.recvNext - 1)

variable {log : List Ready}

theorem OrderedInv.quiet {flow' : InAssociation}
    (h : OrderedInv bound flow log) (hmode : flow'.mode = flow.mode)
    (hnext : flow'.recvNext = flow.recvNext) (hheld : flow'.HeldBelow bound) :
    OrderedInv bound flow' (log ++ []) where
  ordered := by rw [hmode]; exact h.ordered
  pos := by rw [hnext]; exact h.pos
  next_le := by rw [hnext]; exact h.next_le
  held := hheld
  log_eq := by rw [List.append_nil, hnext]; exact h.log_eq

theorem range'_extend {n : ℕ} (h : 1 ≤ n) (k : ℕ) :
    List.range' 1 (n - 1) ++ n :: List.range' (n + 1) k = List.range' 1 (n + 1 + k - 1) := by
  have happ := List.range'_append_1 (s := 1) (m := n - 1) (n := k + 1)
  rw [show 1 + (n - 1) = n by omega, List.range'_succ] at happ
  rw [happ]
  congr 1
  omega

theorem OrderedInv.deliverOrdered (hbound : bound < 2 ^ 32) (h : OrderedInv bound flow log)
    (env : DeliveryEnv) (incoming seq : ℕ) (hseq : seq < bound) :
    OrderedInv bound (flow.deliverOrdered env incoming seq).1
      (log ++ (flow.deliverOrdered env incoming seq).2) := by
  rw [InAssociation.deliverOrdered]
  split_ifs with hlt heq hroom hpush hhold hfree
  · exact h.quiet (by simp) (by simp) (by simpa [HeldBelow] using h.held)
  · exact h.quiet (by simp) (by simp) (by simpa [HeldBelow] using h.held)
  · exact h.quiet rfl rfl h.held
  · -- the cursor packet goes out and the run behind it follows
    subst heq
    have hsucc : (flow.advanceCursor env flow.recvNext).recvNext = flow.recvNext + 1 :=
      succSeq_of_lt (by omega)
    have hheld : (flow.advanceCursor env flow.recvNext).HeldBelow bound := by
      simpa [HeldBelow, advanceCursor] using h.held
    obtain ⟨h1, h2, h3, h4, h5⟩ := drainHoldbackRun_run hbound env (flow.reorderCap + 1) 1
      (flow.advanceCursor env flow.recvNext) hheld (by omega)
    rw [hsucc] at h1 h2
    have hpos := h.pos
    refine ⟨?_, ?_, h3, h4, ?_⟩
    · rw [h5]
      simpa [advanceCursor] using h.ordered
    · exact le_trans (by omega) (le_of_eq h2.symm)
    · rw [List.map_append, List.map_cons, h1, h2, h.log_eq]
      exact range'_extend hpos _
  · refine h.quiet (by simp [holdPacket]) (by simp [holdPacket]) ?_
    intro i hi
    simp only [holdPacket, armAckForArrival_holdback, commitSeen_holdback, put_apply] at hi ⊢
    split_ifs at hi ⊢ with hcell
    · exact hseq
    · exact h.held i hi
  · exact h.quiet rfl rfl h.held
  · exact h.quiet (by simp) (by simp) (by simpa [HeldBelow] using h.held)

theorem dropInHoldback_cell (flow : InAssociation) (i : ℕ) :
    flow.dropInHoldback.1.holdback i = flow.holdback i ∨
      flow.dropInHoldback.1.holdback i = .free := by
  rw [dropInHoldback]
  split
  · exact Or.inl rfl
  · simp only [scan_cell]
    split
    · rw [dropCell]
      split
      · exact Or.inl rfl
      · exact Or.inr rfl
    · exact Or.inl rfl

theorem dropInHoldback_frame (flow : InAssociation) :
    flow.dropInHoldback.1.recvNext = flow.recvNext ∧ flow.dropInHoldback.1.mode = flow.mode ∧
      flow.dropInHoldback.1.recvHighest = flow.recvHighest ∧
      flow.dropInHoldback.1.windowBits = flow.windowBits := by
  rw [dropInHoldback]
  split <;> exact ⟨rfl, rfl, rfl, rfl⟩

theorem reclaimJammed_frame (stallTimeout now : ℕ) (flow : InAssociation) :
    (flow.reclaimJammed stallTimeout now).1.recvNext = flow.recvNext ∧
      (flow.reclaimJammed stallTimeout now).1.mode = flow.mode ∧
      (flow.reclaimJammed stallTimeout now).1.recvHighest = flow.recvHighest ∧
      (flow.reclaimJammed stallTimeout now).1.windowBits = flow.windowBits := by
  rw [reclaimJammed]
  split
  · exact dropInHoldback_frame flow
  · exact ⟨rfl, rfl, rfl, rfl⟩

theorem HeldBelow.reclaimJammed (h : flow.HeldBelow bound)
    (stallTimeout now : ℕ) : (flow.reclaimJammed stallTimeout now).1.HeldBelow bound := by
  rw [InAssociation.reclaimJammed]
  split
  · intro i hi
    rcases dropInHoldback_cell flow i with heq | heq
    · simp only [armAck, heq] at hi ⊢
      exact h i hi
    · simp only [armAck, heq] at hi
      exact absurd rfl hi
  · exact h

theorem takeAckEntry_frame (flow : InAssociation) (now room : ℕ) :
    (flow.takeAckEntry now room).1.recvNext = flow.recvNext ∧
      (flow.takeAckEntry now room).1.mode = flow.mode ∧
      (flow.takeAckEntry now room).1.holdback = flow.holdback ∧
      (flow.takeAckEntry now room).1.recvHighest = flow.recvHighest ∧
      (flow.takeAckEntry now room).1.windowBits = flow.windowBits ∧
      (flow.takeAckEntry now room).1.seen = flow.seen ∧
      (flow.takeAckEntry now room).1.reorderCap = flow.reorderCap := by
  rw [takeAckEntry]
  split
  · dsimp only
    split <;> exact ⟨rfl, rfl, rfl, rfl, rfl, rfl, rfl⟩
  · exact ⟨rfl, rfl, rfl, rfl, rfl, rfl, rfl⟩

theorem OrderedInv.step (hbound : bound < 2 ^ 32) (stallTimeout : ℕ)
    (h : OrderedInv bound flow log) (e : Event)
    (he : ∀ env flowId epoch seq incoming, e = .deliver env flowId epoch seq incoming → seq < bound) :
    OrderedInv bound (flow.step stallTimeout e).1 (log ++ (flow.step stallTimeout e).2) := by
  cases e with
  | deliver env flowId assocEpoch seq incoming =>
    have hseq := he _ _ _ _ _ rfl
    simp only [InAssociation.step, deliverIn, h.ordered, if_true]
    split
    · have hd := h.deliverOrdered hbound env incoming seq hseq
      split
      · exact ⟨hd.ordered, hd.pos, hd.next_le, hd.held, hd.log_eq⟩
      · exact hd
    · exact h.quiet rfl rfl h.held
  | reclaim now =>
    obtain ⟨hnext, hmode, -, -⟩ := reclaimJammed_frame stallTimeout now flow
    exact h.quiet hmode hnext (h.held.reclaimJammed stallTimeout now)
  | flushAck now room =>
    obtain ⟨hnext, hmode, hhold, -⟩ := takeAckEntry_frame flow now room
    refine h.quiet hmode hnext ?_
    intro i
    simp only [InAssociation.step, hhold]
    exact h.held i

/-! ## Unordered modes -/

structure SameWindow (flow' flow : InAssociation) : Prop where
  seen : flow'.seen = flow.seen
  high : flow'.recvHighest = flow.recvHighest
  bits : flow'.windowBits = flow.windowBits
  mode : flow'.mode = flow.mode
  next : flow'.recvNext = flow.recvNext
  cap : flow'.reorderCap = flow.reorderCap

section SameWindow
variable {flow flow' : InAssociation} (h : SameWindow flow' flow)
include h

theorem SameWindow.alreadySeen (s : ℕ) : flow'.alreadySeen s = flow.alreadySeen s := by
  simp only [InAssociation.alreadySeen, seenTest, h.seen, h.high, h.bits]

theorem SameWindow.marked (s : ℕ) : flow'.Marked s ↔ flow.Marked s := by
  simp only [Marked, InWindow, seenTest, h.seen, h.high, h.bits]

theorem SameWindow.seenWf (wf : flow.SeenWf) : flow'.SeenWf where
  pow2 := by rw [h.bits]; exact wf.pow2
  owned := by
    intro i hi
    rw [h.seen] at hi
    simpa only [InWindow, h.high, h.bits] using wf.owned i hi

end SameWindow

theorem sameWindow_armAckForArrival (flow : InAssociation) (now : ℕ) (committed : Bool) :
    SameWindow (flow.armAckForArrival now committed) flow :=
  ⟨by simp, by simp, by simp, by simp, by simp, by simp⟩

theorem deliverUnordered_cases (env : DeliveryEnv) (flow : InAssociation) (incoming seq : ℕ) :
    let r := flow.deliverUnordered env incoming seq
    (r.2 = [] ∧ SameWindow r.1 flow) ∨
      flow.alreadySeen seq = false ∧ SameWindow r.1 (flow.commitSeen seq) ∧
        (r.2 = [] ∧ flow.mode = .unreliable ∨
          r.2 = [⟨seq, incoming⟩] ∧ (flow.mode = .unreliable → flow.recvHighest < seq)) := by
  rw [deliverUnordered]
  split_ifs with hseen hstale hroom hpush
  · exact Or.inl ⟨rfl, sameWindow_armAckForArrival flow env.now false⟩
  · exact Or.inr ⟨by simpa using hseen, sameWindow_armAckForArrival _ env.now true,
      Or.inl ⟨rfl, hstale.1⟩⟩
  · exact Or.inl ⟨rfl, sameWindow_armAckForArrival flow env.now false⟩
  · exact Or.inl ⟨rfl, ⟨rfl, rfl, rfl, rfl, rfl, rfl⟩⟩
  · refine Or.inr ⟨by simpa using hseen, sameWindow_armAckForArrival _ env.now true,
      Or.inr ⟨rfl, ?_⟩⟩
    intro hmode
    by_contra hle
    exact hstale ⟨hmode, by omega⟩

/-- What the lane has received, against the seen window. -/
structure UnorderedInv (mode : FlowMode) (flow : InAssociation) (log : List Ready) : Prop where
  mode_eq : flow.mode = mode
  unordered : isOrdered mode = false
  cap : flow.reorderCap = 0
  next : flow.recvNext = 1
  wf : flow.SeenWf
  pushed_seen : ∀ s ∈ log.map Ready.seq, flow.alreadySeen s = true
  seen_pushed : mode = .reliableUnordered → ∀ s, flow.Marked s → s ∈ log.map Ready.seq
  nodup : (log.map Ready.seq).Nodup
  newest : mode = .unreliable → (log.map Ready.seq).Pairwise (· < ·)

variable {mode : FlowMode}

theorem UnorderedInv.quiet {flow' : InAssociation}
    (h : UnorderedInv mode flow log) (same : SameWindow flow' flow) : UnorderedInv mode flow' (log ++ []) where
  mode_eq := by rw [same.mode]; exact h.mode_eq
  unordered := h.unordered
  cap := by rw [same.cap]; exact h.cap
  next := by rw [same.next]; exact h.next
  wf := same.seenWf h.wf
  pushed_seen := by
    intro s hs
    rw [same.alreadySeen]
    exact h.pushed_seen s (by simpa using hs)
  seen_pushed := by
    intro hmode s hs
    simpa using h.seen_pushed hmode s ((same.marked s).mp hs)
  nodup := by simpa using h.nodup
  newest := fun hmode => by simpa using h.newest hmode

theorem UnorderedInv.commit (h : UnorderedInv mode flow log)
    {seq : ℕ} (hnew : flow.alreadySeen seq = false) (hmode : mode = .unreliable) :
    UnorderedInv mode (flow.commitSeen seq) log where
  mode_eq := by rw [commitSeen_mode]; exact h.mode_eq
  unordered := h.unordered
  cap := by rw [commitSeen_reorderCap]; exact h.cap
  next := by rw [commitSeen_recvNext]; exact h.next
  wf := h.wf.commitSeen (windowFloor_le_of_not_alreadySeen h.wf.pow2.pos hnew)
  pushed_seen := fun s hs => alreadySeen_commitSeen h.wf
    (windowFloor_le_of_not_alreadySeen h.wf.pow2.pos hnew) (Or.inl (h.pushed_seen s hs))
  seen_pushed := by
    intro hrel
    rw [hmode] at hrel
    cases hrel
  nodup := h.nodup
  newest := fun _ => h.newest hmode

theorem UnorderedInv.push (h : UnorderedInv mode flow log)
    {seq incoming : ℕ} (hnew : flow.alreadySeen seq = false)
    (hmode : mode = .unreliable → flow.recvHighest < seq) :
    UnorderedInv mode (flow.commitSeen seq) (log ++ [⟨seq, incoming⟩]) where
  mode_eq := by rw [commitSeen_mode]; exact h.mode_eq
  unordered := h.unordered
  cap := by rw [commitSeen_reorderCap]; exact h.cap
  next := by rw [commitSeen_recvNext]; exact h.next
  wf := h.wf.commitSeen (windowFloor_le_of_not_alreadySeen h.wf.pow2.pos hnew)
  pushed_seen := by
    intro s hs
    rw [List.map_append, List.mem_append] at hs
    refine alreadySeen_commitSeen h.wf (windowFloor_le_of_not_alreadySeen h.wf.pow2.pos hnew) ?_
    rcases hs with hs | hs
    · exact Or.inl (h.pushed_seen s hs)
    · exact Or.inr (by simpa using hs)
  seen_pushed := by
    intro hrel s hs
    rw [marked_commitSeen h.wf (windowFloor_le_of_not_alreadySeen h.wf.pow2.pos hnew)] at hs
    rw [List.map_append, List.mem_append]
    rcases hs.2 with rfl | hold
    · exact Or.inr (by simp)
    · exact Or.inl (h.seen_pushed hrel s hold)
  nodup := by
    rw [List.map_append]
    refine List.Nodup.append h.nodup (List.nodup_singleton _) ?_
    intro s hs hs'
    have hseen := h.pushed_seen s hs
    rw [show s = seq by simpa using hs', hnew] at hseen
    cases hseen
  newest := by
    intro hun
    rw [List.map_append, List.pairwise_append]
    refine ⟨h.newest hun, by simp, ?_⟩
    intro a ha b hb
    have hle := (alreadySeen_iff.mp (h.pushed_seen a ha)).1
    have hlt := hmode hun
    rw [show b = seq by simpa using hb]
    omega

theorem UnorderedInv.step (stallTimeout : ℕ)
    (h : UnorderedInv mode flow log) (e : Event) :
    UnorderedInv mode (flow.step stallTimeout e).1 (log ++ (flow.step stallTimeout e).2) := by
  cases e with
  | deliver env flowId assocEpoch seq incoming =>
    simp only [InAssociation.step, deliverIn, h.mode_eq, h.unordered, if_false, Bool.false_eq_true]
    split
    · rcases deliverUnordered_cases env flow incoming seq with
        ⟨hlog, same⟩ | ⟨hnew, same, ⟨hlog, hmode⟩ | ⟨hlog, hmode⟩⟩
      all_goals
        rw [hlog]
        have hnext : ¬ (flow.deliverUnordered env incoming seq).1.recvNext ≠ flow.recvNext := by
          simp [same.next]
        rw [if_neg hnext]
      · exact h.quiet same
      · simpa using (h.commit hnew (h.mode_eq ▸ hmode)).quiet same
      · simpa using (h.push hnew (h.mode_eq ▸ hmode)).quiet same
    · exact h.quiet ⟨rfl, rfl, rfl, rfl, rfl, rfl⟩
  | reclaim now =>
    have hjam : inAssocJammed stallTimeout now flow = false := by simp [inAssocJammed, h.cap]
    simp only [InAssociation.step, reclaimJammed, hjam]
    exact h.quiet ⟨rfl, rfl, rfl, rfl, rfl, rfl⟩
  | flushAck now room =>
    obtain ⟨hnext, hmode, -, hhigh, hbits, hseen, hcap⟩ := takeAckEntry_frame flow now room
    exact h.quiet ⟨hseen, hhigh, hbits, hmode, hnext, hcap⟩

/-! ## Whole generations -/

theorem orderedInv_reset (old : InAssociation) (p : InAssocParams) (now : ℕ)
    (h : isOrdered p.mode = true) (hb : 1 ≤ bound) :
    OrderedInv bound (resetInAssoc old p now) [] where
  ordered := h
  pos := le_refl 1
  next_le := hb
  held := fun _ hi => absurd rfl hi
  log_eq := rfl

theorem unorderedInv_reset (old : InAssociation) (p : InAssocParams) (now : ℕ)
    (h : isOrdered p.mode = false) : UnorderedInv p.mode (resetInAssoc old p now) [] where
  mode_eq := rfl
  unordered := h
  cap := reorderCapFor_unordered h
  next := rfl
  wf := ⟨windowFor_isPow2 p.mode, fun _ hi => by cases hi⟩
  pushed_seen := by simp
  seen_pushed := by
    rintro - s ⟨-, hs⟩
    cases hs
  nodup := List.nodup_nil
  newest := fun _ => List.Pairwise.nil

/-- Over every run of one generation: ordered modes push exactly `1 … recvNext - 1` in
order, the unordered reliable mode pushes each sequence at most once, and the unreliable
mode pushes a strictly increasing run. -/
theorem receiver_order (stallTimeout : ℕ) (old : InAssociation) (p : InAssocParams) (now : ℕ)
    (events : List Event) (hwrap : ∀ e ∈ events, e.BelowWrap) :
    let r := runLog (step stallTimeout) (resetInAssoc old p now) events
    (isOrdered p.mode = true → r.2.map Ready.seq = List.range' 1 (r.1.recvNext - 1)) ∧
      (p.mode = .reliableUnordered → (r.2.map Ready.seq).Nodup) ∧
      (p.mode = .unreliable → (r.2.map Ready.seq).Pairwise (· < ·)) := by
  by_cases hmode : isOrdered p.mode = true
  · have hinv := runLog_invariant (step stallTimeout) (OrderedInv (2 ^ 32 - 1024))
      (fun _ e => e.BelowWrap)
      (fun flow log e he h => h.step (by omega) stallTimeout e
        (fun env flowId epoch seq incoming heq => by subst heq; exact he))
      (orderedInv_reset old p now hmode (by omega)) (along_of_forall _ hwrap _)
    refine ⟨fun _ => hinv.log_eq, ?_, ?_⟩
    · intro h
      rw [h] at hmode
      cases hmode
    · intro h
      rw [h] at hmode
      cases hmode
  · have hmode' : isOrdered p.mode = false := by simpa using hmode
    have hinv := runLog_invariant (step stallTimeout) (UnorderedInv p.mode)
      (fun _ e => e.BelowWrap) (fun flow log e _ h => h.step stallTimeout e)
      (unorderedInv_reset old p now hmode') (along_of_forall _ hwrap _)
    exact ⟨fun h => absurd h hmode, fun _ => hinv.nodup, hinv.newest⟩

/-- Sequence 2 arrives first and is held; sequence 1 then releases both, in order. -/
theorem receiver_order_fills_gap :
    let env : DeliveryEnv := ⟨10, true, fun _ => true⟩
    let events := [Event.deliver env 7 1 2 20, .reclaim 11, .deliver env 7 1 1 21]
    let r := runLog (step 5000000)
      (resetInAssoc .raw ⟨0, ⟨[], 0, 0⟩, ⟨[]⟩, 7, .reliableOrdered, 0⟩ 5) events
    (∀ e ∈ events, e.BelowWrap) ∧ r.1.recvNext = 3 ∧ r.2.map Ready.seq = List.range' 1 2 := by
  intro env events r
  have hwrap : ∀ e ∈ events, e.BelowWrap := by
    intro e he
    simp only [events, List.mem_cons, List.not_mem_nil, or_false] at he
    rcases he with rfl | rfl | rfl <;> simp [Event.BelowWrap]
  have hnext : r.1.recvNext = 3 := by decide
  have hlog := (receiver_order 5000000 .raw ⟨0, ⟨[], 0, 0⟩, ⟨[]⟩, 7, .reliableOrdered, 0⟩ 5
    events hwrap).1 rfl
  refine ⟨hwrap, hnext, hlog.trans ?_⟩
  rw [hnext]

end InAssociation

end BcpFlux.Flow
