import BcpFlux.Socket.Path

/-! # When the window collapses

The probe branch of `ApplyCongestion` takes the budget to the floor once the last answer is older
than three timeouts.  A session and most acknowledgements restart that clock; a packet does not,
so an idle period counts as silence.  A collapse is compared with the silence a log of the events
shows.
-/

namespace BcpFlux.Socket
open Library Peer BcpFlux.Flow BcpFlux.Transfer

def PathEvent.isAck : PathEvent → Bool
  | .flowAck _ | .transferAck .. => true
  | _ => false

namespace Controller

theorem probe_of_changed {lim : Limits} {c : Controller} {delta : CongestionDelta} {now : ℕ}
    (h : (c.probe lim delta now).congestionBudget ≠ c.congestionBudget) :
    delta.sawProbe = true ∧ delta.ackedBytes = 0 ∧ c.persistentSilence lim now = true := by
  by_contra hquiet
  rw [probe, if_neg hquiet] at h
  exact h rfl

theorem observe_rtt (lim : Limits) (c : Controller) (delta : CongestionDelta) (now : ℕ) :
    (c.observe lim delta now).rtt = (c.measure delta now).rtt :=
  congrArg Prod.fst (judgeStarvation_settled lim (c.measure delta now) delta now).1

theorem measure_rtt_of_silent (c : Controller) {delta : CongestionDelta} (now : ℕ)
    (hsample : delta.rttSampleMicros = 0) (hacked : delta.ackedBytes = 0) :
    (c.measure delta now).rtt = c.rtt := by
  simp [measure, hear, foldSample, settle, refund, transferResolve, hsample, hacked]

theorem not_persistentSilence (lim : Limits) {c : Controller} {now : ℕ}
    (h : now ≤ c.rtt.lastAckedAtMicros) : c.persistentSilence lim now = false := by
  simp [persistentSilence, RttEstimate.silentForMicros, h]

end Controller

namespace Path
variable (lim : Limits) (stall : ℕ) (s : Path)

def owed : ℕ := (s.flows.map OutAssociation.unresolved).sum + (s.transfers.map OutTransfer.inFlight).sum

/-- An acknowledgement of a transfer that frees none of its packets. -/
def freesNothing : PathEvent → Bool
  | .transferAck k recvNext bitmap =>
    match s.transfers[k]? with
    | none => true
    | some out => decide ((out.onAck recvNext bitmap s.clock).2.1.freed = [])
  | _ => false

theorem isAck_of_freesNothing {s : Path} {e : PathEvent} (h : s.freesNothing e = true) :
    e.isAck = true := by
  cases e <;> first | rfl | cases h

/-- In the step an event makes, the probe branch changes the budget. -/
def Collapses (e : ℕ × PathEvent) : Prop :=
  ∃ report ∈ (s.outcome lim stall e).2,
    let now := s.clock + e.1
    let seen := (s.outcome lim stall e).1.ctl.observe lim report.delta now
    (seen.probe lim report.delta now).congestionBudget ≠ seen.congestionBudget

instance (e : ℕ × PathEvent) : Decidable (s.Collapses lim stall e) :=
  inferInstanceAs (Decidable (∃ report ∈ (s.outcome lim stall e).2, _))

/-- Longer than `PERSISTENT_CONGESTION_PROBES` timeouts that were not backed off. -/
def silenceSpan : ℕ :=
  s.ctl.rtt.baseTimeout lim.retryIntervalMicros lim.ackDelayMicros * persistentCongestionProbes + 1

/-! ## What restarts the silence -/

theorem react_lastAcked (r : Option Report) :
    (s.react lim r).ctl.rtt.lastAckedAtMicros =
      if ∃ report ∈ r, report.delta.ackedBytes ≠ 0 then s.clock else s.ctl.rtt.lastAckedAtMicros := by
  cases r with
  | none => simp [react]
  | some report => simp [react, Controller.applyCongestion_rtt, Controller.measure_lastAcked]

theorem work_lastAcked (e : PathEvent) :
    (s.work lim stall e).1.ctl.rtt.lastAckedAtMicros = s.ctl.rtt.lastAckedAtMicros ∨
      (s.work lim stall e).1.ctl.rtt.lastAckedAtMicros = s.clock := by
  obtain ⟨-, b, hctl, -, -, hrtt⟩ := work_worked lim stall s e
  rw [hctl]
  exact hrtt.imp (congrArg _) (congrArg RttEstimate.lastAckedAtMicros)

theorem seqCharges_pos (length : ℕ) {seqs : List ℕ} (h : seqs ≠ []) : (seqCharges length seqs).1 ≠ 0 := by
  obtain ⟨seq, rest, rfl⟩ := List.exists_cons_of_ne_nil h
  have hpos : 0 < wireSizeForSeq length seq := by
    unfold wireSizeForSeq transferWireSize
    exact Nat.succ_pos _
  simp only [seqCharges, seqCharge, List.map_cons, List.sum_cons, Prod.fst_add]
  omega

theorem heard {e : PathEvent} (hack : e.isAck = true) (hfrees : s.freesNothing e = false) :
    (∃ report ∈ (s.work lim stall e).2, report.delta.ackedBytes ≠ 0) ∨
      (s.work lim stall e).1.ctl.rtt.lastAckedAtMicros = s.clock := by
  cases e with
  | flowAck acks => exact .inr rfl
  | transferAck k recvNext bitmap =>
    cases hout : s.transfers[k]? with
    | none => simp [freesNothing, hout] at hfrees
    | some out =>
      have hfreed : (out.onAck recvNext bitmap s.clock).2.1.freed ≠ [] := by
        simpa [freesNothing, hout] using hfrees
      have hsome : (out.onAck recvNext bitmap s.clock).2.1 ≠ .none := fun h => hfreed (by rw [h]; rfl)
      left
      simp [work, hout, transferAcked, hsome, transferDelta, seqCharges_pos _ hfreed]
  | _ => cases hack

theorem step_lastAcked (e : ℕ × PathEvent) :
    ((s.step lim stall e).ctl.rtt.lastAckedAtMicros = s.ctl.rtt.lastAckedAtMicros ∨
        (s.step lim stall e).ctl.rtt.lastAckedAtMicros = s.clock + e.1) ∧
      (e.2.isAck = true → (s.wait e.1).freesNothing e.2 = false →
        (s.step lim stall e).ctl.rtt.lastAckedAtMicros = s.clock + e.1) := by
  have hclock : (s.outcome lim stall e).1.clock = s.clock + e.1 :=
    (work_worked lim stall (s.wait e.1) e.2).1
  have hwork := work_lastAcked lim stall (s.wait e.1) e.2
  rw [step, react_lastAcked]
  split_ifs with hacked
  · exact ⟨.inr hclock, fun _ _ => hclock⟩
  · exact ⟨hwork, fun hack hfrees => (heard lim stall (s.wait e.1) hack hfrees).resolve_left hacked⟩

/-! ## Who collapses the window -/

theorem retransmitInflight_sawProbe (timers : FlowTimers) (flow : OutAssociation) (peer : PeerBudget)
    (now : ℕ) (h : (flow.retransmitInflight timers peer now .zero).delta.sawProbe = true) :
    ∃ j < flow.inflightCap, (flow.inFlight j).Outstanding := by
  obtain ⟨n, hn, acc, hacc, hdelta, -⟩ := flow.retransmitInflight_turns timers peer now .zero
    (P := fun m acc => acc.resolved.delta.sawProbe = true → ∃ j < m, (flow.inFlight j).Outstanding)
    (by simp [CongestionDelta.zero]) (by
      rintro k _ acc r hturn - hacc hprobe
      cases hturn with
      | kept | reoffered =>
        obtain ⟨j, hj, hopen⟩ := hacc hprobe
        exact ⟨j, by omega, hopen⟩
      | probed _ _ _ hopen => exact ⟨k, by omega, hopen⟩
      | timedOut hopen => exact ⟨k, by omega, hopen⟩)
  obtain ⟨j, hj, hopen⟩ := hacc (hdelta ▸ h)
  exact ⟨j, by omega, hopen⟩

/-- Only a tick does, over an outstanding packet, and the silence it sees is that of the clock. -/
theorem Collapses.of_tick {lim : Limits} {stall : ℕ} {s : Path} {e : ℕ × PathEvent}
    (h : s.Collapses lim stall e) :
    ∃ i, e.2 = .tick i ∧ s.ctl.persistentSilence lim (s.clock + e.1) = true ∧
      ∃ flow : OutAssociation, s.flows[i]? = some flow ∧
        ∃ j < flow.inflightCap, (flow.inFlight j).Outstanding := by
  obtain ⟨micros, event⟩ := e
  obtain ⟨report, hreport, hchanged⟩ := h
  obtain ⟨hprobe, hacked, hsilent⟩ := Controller.probe_of_changed hchanged
  have hloud : ∀ c : Controller, c.rtt.lastAckedAtMicros = s.clock + micros →
      c.persistentSilence lim (s.clock + micros) ≠ true := by
    intro c hlast
    rw [Controller.not_persistentSilence lim hlast.ge]
    simp
  cases work_report hreport with
  | flowAck acks =>
    refine absurd hsilent (hloud _ ?_)
    rw [Controller.observe_rtt, Controller.measure_lastAcked]
    split_ifs <;> rfl
  | transferAck => cases hprobe
  | tick i flow hflow =>
    refine ⟨i, rfl, ?_, flow, hflow, retransmitInflight_sawProbe _ _ _ _ hprobe⟩
    obtain ⟨-, b, hctl, -, -, hrtt⟩ := work_worked lim stall (s.wait micros) (.tick i)
    have hseen := (Controller.observe_rtt lim (s.outcome lim stall (micros, .tick i)).1.ctl _
      (s.clock + micros)).trans (Controller.measure_rtt_of_silent _ _
        (retransmitInflight_rttSample _ _ _ _) hacked)
    rcases hrtt with hsame | hmarked
    · have hrtt : (s.outcome lim stall (micros, .tick i)).1.ctl.rtt = s.ctl.rtt :=
        (congrArg (fun c : Controller => c.rtt) hctl).trans hsame
      rw [Controller.persistentSilence, hseen, hrtt] at hsilent
      exact hsilent
    · refine absurd hsilent (hloud _ ?_)
      rw [hseen]
      exact congrArg RttEstimate.lastAckedAtMicros
        ((congrArg (fun c : Controller => c.rtt) hctl).trans hmarked)

/-! ## The counters of the associations -/

theorem forall_set {P : OutAssociation → Prop} {flows : List OutAssociation}
    (h : ∀ flow ∈ flows, P flow) (i : ℕ) {flow' : OutAssociation} (hnew : P flow') :
    ∀ flow ∈ flows.set i flow', P flow := by
  intro flow hmem
  rcases List.mem_or_eq_of_mem_set hmem with hold | rfl
  · exact h flow hold
  · exact hnew

theorem foldl_sweepEntry_counted (timers : FlowTimers) (rtt : RttEstimate) (now : ℕ)
    (acks : List (ℕ × AckEntry)) (acc : AckSweep) (h : ∀ flow ∈ acc.flows, flow.Counted) :
    ∀ flow ∈ (acks.foldl (sweepEntry timers rtt now) acc).flows, flow.Counted := by
  induction acks generalizing acc with
  | nil => exact h
  | cons a acks ih =>
    apply ih
    rw [sweepEntry]
    cases hflow : acc.flows[a.1]? with
    | none => exact h
    | some flow =>
      exact forall_set h a.1
        ((h flow (List.mem_of_getElem? hflow)).walks (flow.applyAck_walks timers rtt a.2 now _))

theorem work_counted (e : PathEvent) (h : ∀ flow ∈ s.flows, flow.Counted) :
    ∀ flow ∈ (s.work lim stall e).1.flows, flow.Counted := by
  have hat : ∀ {i : ℕ} {flow : OutAssociation}, s.flows[i]? = some flow → flow.Counted :=
    fun hflow => h _ (List.mem_of_getElem? hflow)
  cases e with
  | sessionStarted | openTransfer => exact h
  | openFlow oldEpoch p =>
    intro flow hmem
    rcases List.mem_append.mp hmem with hold | hnew
    · exact h flow hold
    · rw [List.mem_singleton.mp hnew]
      exact OutAssociation.counted_reset oldEpoch p s.clock
  | send i packetSlot wireSize flying =>
    rw [work]
    cases hflow : s.flows[i]? with
    | none => exact h
    | some flow => exact forall_set h i ((hat hflow).admitOut _ packetSlot wireSize flying s.clock)
  | drain i candidateEpoch candidateSlot =>
    rw [work]
    cases hflow : s.flows[i]? with
    | none => exact h
    | some flow => exact forall_set h i ((hat hflow).claimWaiting _ candidateEpoch candidateSlot s.clock)
  | flowAck acks => exact foldl_sweepEntry_counted _ _ _ acks ⟨s.flows, .zero, []⟩ h
  | tick i =>
    rw [work]
    cases hflow : s.flows[i]? with
    | none => exact h
    | some flow =>
      have hpass := (hat hflow).walks
        (flow.retransmitInflight_walks (timers lim stall) s.ctl.toPeerBudget s.clock .zero)
      dsimp only [updateOutFlow]
      split_ifs
      · exact forall_set h i ((hat hflow).tearDown .failed)
      · exact forall_set h i hpass
      · exact forall_set h i hpass
      · exact h
  | refundResends i seqs =>
    rw [work]
    cases hflow : s.flows[i]? with
    | none => exact h
    | some flow => exact forall_set h i ((hat hflow).act (timers lim stall) s.clock (.refund seqs))
  | closeFlow i life =>
    rw [work]
    cases hflow : s.flows[i]? with
    | none => exact h
    | some flow => exact forall_set h i ((hat hflow).tearDown life)
  | transferPass k =>
    rw [work]
    cases s.transfers[k]? <;> exact h
  | transferAck k =>
    rw [work]
    cases s.transfers[k]? <;> exact h
  | transferReject k =>
    rw [work]
    cases s.transfers[k]? <;> exact h

end Path

/-! ## The record -/

structure LoggedPath where
  path : Path
  /-- Newest first; the flag stands for an acknowledgement that came in. -/
  history : List Moment
  /-- When acknowledgements of transfers freed nothing. -/
  idleAcks : List ℕ

namespace LoggedPath
variable (lim : Limits) (stall : ℕ)

def registered (now : ℕ) : LoggedPath := ⟨.registered now, [⟨now, 0, false⟩], []⟩

def step (s : LoggedPath) (e : ℕ × PathEvent) : LoggedPath :=
  let path := s.path.step lim stall e
  { path := path
    history := ⟨path.clock, path.owed, e.2.isAck⟩ :: s.history
    idleAcks := if (s.path.wait e.1).freesNothing e.2 then path.clock :: s.idleAcks else s.idleAcks }

structure Inv (s : LoggedPath) : Prop where
  ordered : Ordered s.history
  past : ∀ m ∈ s.history, m.time ≤ s.path.clock
  newest : Owing s.history ↔ 0 < s.path.owed
  acks : ∀ m ∈ s.history, m.ackResolved = true →
    m.time ≤ s.path.ctl.rtt.lastAckedAtMicros ∨ m.time ∈ s.idleAcks
  idle : ∀ t ∈ s.idleAcks, ∃ m ∈ s.history, m.ackResolved = true ∧ m.time = t
  clock_le : s.path.ctl.rtt.lastAckedAtMicros ≤ s.path.clock
  counted : ∀ flow ∈ s.path.flows, flow.Counted

theorem inv_registered (now : ℕ) : (registered now).Inv where
  ordered := List.pairwise_singleton _ _
  past := by simp [registered, Path.registered]
  newest := by simp [registered, Path.registered, Path.owed, Owing]
  acks := by simp [registered]
  idle := by simp [registered]
  clock_le := Nat.zero_le _
  counted := by simp [registered, Path.registered]

theorem Inv.step {s : LoggedPath} (h : s.Inv) (e : ℕ × PathEvent) : (s.step lim stall e).Inv := by
  obtain ⟨hmove, hack⟩ := s.path.step_lastAcked lim stall e
  have hclock := s.path.step_clock lim stall e
  have hle := h.clock_le
  have hpast : ∀ m ∈ s.history, m.time ≤ (s.path.step lim stall e).clock := by
    intro m hm
    have := h.past m hm
    omega
  constructor
  · exact List.pairwise_cons.mpr ⟨hpast, h.ordered⟩
  · exact List.forall_mem_cons.mpr ⟨le_rfl, hpast⟩
  · exact Iff.rfl
  · refine List.forall_mem_cons.mpr ⟨?_, ?_⟩
    · intro hisAck
      cases hfrees : (s.path.wait e.1).freesNothing e.2 with
      | true => exact .inr (by simp [LoggedPath.step, hfrees])
      | false =>
        left
        simp only [LoggedPath.step]
        rw [hack hisAck hfrees, hclock]
    · intro m hm hisAck
      rcases h.acks m hm hisAck with hlast | hidle
      · left
        simp only [LoggedPath.step]
        rcases hmove with hsame | hnow <;> omega
      · right
        simp only [LoggedPath.step]
        split_ifs
        · exact List.mem_cons_of_mem _ hidle
        · exact hidle
  · have hold : ∀ t ∈ s.idleAcks, ∃ m ∈ (s.step lim stall e).history, m.ackResolved = true ∧
        m.time = t := by
      intro t ht
      obtain ⟨m, hm, hm'⟩ := h.idle t ht
      exact ⟨m, List.mem_cons_of_mem _ hm, hm'⟩
    simp only [LoggedPath.step] at hold ⊢
    split_ifs with hfrees
    · exact List.forall_mem_cons.mpr
        ⟨⟨_, List.mem_cons_self, Path.isAck_of_freesNothing hfrees, rfl⟩, hold⟩
    · exact hold
  · simp only [LoggedPath.step]
    rcases hmove with hsame | hnow <;> omega
  · have hcounted := Path.work_counted lim stall (s.path.wait e.1) e.2 h.counted
    simp only [LoggedPath.step, Path.step, Path.react, Path.outcome]
    cases ((s.path.wait e.1).work lim stall e.2).2 <;> exact hcounted

/-- What a collapse stands for.  It is a full span of silence over packets owed exactly if they
have been owed for that long and no acknowledgement within the span freed nothing; so it is if
they were owed already when the silence was last broken, and no such acknowledgement came since. -/
structure Deserved (s : LoggedPath) (e : ℕ × PathEvent) : Prop where
  silent_iff : SilentFor (s.path.clock + e.1) (s.path.silenceSpan lim) s.history ↔
    owedSince s.history + s.path.silenceSpan lim ≤ s.path.clock + e.1 ∧
      ∀ t ∈ s.idleAcks, t + s.path.silenceSpan lim ≤ s.path.clock + e.1
  silent : owedSince s.history ≤ s.path.ctl.rtt.lastAckedAtMicros →
    (∀ t ∈ s.idleAcks, t ≤ s.path.ctl.rtt.lastAckedAtMicros) →
    SilentFor (s.path.clock + e.1) (s.path.silenceSpan lim) s.history

theorem Inv.deserved {s : LoggedPath} (h : s.Inv) {e : ℕ × PathEvent}
    (hcollapse : s.path.Collapses lim stall e) : s.Deserved lim e := by
  obtain ⟨i, -, hsilent, flow, hflow, j, hj, hopen⟩ := hcollapse.of_tick
  have hmem : flow ∈ s.path.flows := List.mem_of_getElem? hflow
  have howed : 0 < s.path.owed := by
    have hpos := (h.counted flow hmem).pos hj hopen
    have hsum := List.le_sum_of_mem (List.mem_map_of_mem (f := OutAssociation.unresolved) hmem)
    unfold Path.owed
    omega
  -- the span has passed since the clock was restarted, so only idle acknowledgements can be young
  have hspan : s.path.ctl.rtt.lastAckedAtMicros + s.path.silenceSpan lim ≤ s.path.clock + e.1 := by
    rw [Controller.persistentSilence, RttEstimate.silentForMicros, decide_eq_true_eq] at hsilent
    unfold Path.silenceSpan
    split_ifs at hsilent <;> omega
  have hiff : SilentFor (s.path.clock + e.1) (s.path.silenceSpan lim) s.history ↔
      owedSince s.history + s.path.silenceSpan lim ≤ s.path.clock + e.1 ∧
        ∀ t ∈ s.idleAcks, t + s.path.silenceSpan lim ≤ s.path.clock + e.1 := by
    rw [silentFor_iff h.ordered, and_iff_right (h.newest.mpr howed)]
    refine and_congr_right fun _ => ⟨fun hacks t ht => ?_, fun hidle m hm hisAck => ?_⟩
    · obtain ⟨m, hm, hisAck, rfl⟩ := h.idle t ht
      exact hacks m hm hisAck
    · rcases h.acks m hm hisAck with hlast | hmem
      · omega
      · exact hidle m.time hmem
  refine ⟨hiff, fun hsince hidle => hiff.mpr ⟨by omega, fun t ht => ?_⟩⟩
  have := hidle t ht
  omega

/-- Every collapse of every run: what it stands for is decided by when packets became owed and by
the acknowledgements that freed nothing. -/
theorem collapse_follows_silence (start : ℕ) (events : List (ℕ × PathEvent)) :
    Along (step lim stall) (fun s e => s.path.Collapses lim stall e → s.Deserved lim e)
      (registered start) events :=
  along_invariant (step lim stall) Inv (fun _ e _ hinv => hinv.step lim stall e)
    (fun _ e hinv _ hcollapse => hinv.deserved lim stall (e := e) hcollapse)
    (inv_registered start) (along_true (step lim stall) _ events)

/-- One packet goes out and is never answered. -/
theorem collapse_follows_silence_unanswered :
    let lim : Limits := ⟨2400, 1228800, 50000, 5000, 0⟩
    let before : List (ℕ × PathEvent) := [(0, .sessionStarted),
      (0, .openFlow 0 ⟨0, ⟨[], 0, 0⟩, ⟨[]⟩, 7, .reliableOrdered, 1, 4⟩), (100, .send 0 0 100 true)]
    let tick : ℕ × PathEvent := (400000, .tick 0)
    let s := run (step lim 5000000) (registered 1000000) before
    s.path.Collapses lim 5000000 tick ∧
      SilentFor (s.path.clock + tick.1) (s.path.silenceSpan lim) s.history := by
  intro lim before tick s
  have hcollapse : s.path.Collapses lim 5000000 tick := by decide +kernel
  have hrun := collapse_follows_silence lim 5000000 1000000 (before ++ [tick])
  have hlast : s.Deserved lim tick := hrun.2.2.2.1 hcollapse
  exact ⟨hcollapse, hlast.silent_iff.mpr (by decide +kernel)⟩

/-- One packet is answered, an idle second passes, and the first probe of the next packet takes the
budget to the floor, a quarter of a second after it went out. -/
theorem probe_after_idle_collapses :
    let lim : Limits := ⟨2400, 1228800, 50000, 5000, 0⟩
    let s := run (step lim 5000000) (registered 1000000) [(0, .sessionStarted),
      (0, .openFlow 0 ⟨0, ⟨[], 0, 0⟩, ⟨[]⟩, 7, .reliableOrdered, 1, 4⟩),
      (100, .send 0 0 100 true), (40000, .flowAck [(0, ⟨7, 1, 2, 3000, []⟩)]),
      (1000000, .send 0 1 100 true), (5000, .drain 0 1 1)]
    let tick : ℕ × PathEvent := (235000, .tick 0)
    s.path.Collapses lim 5000000 tick ∧ owedSince s.history = s.path.clock ∧
      ¬ SilentFor (s.path.clock + tick.1) (s.path.silenceSpan lim) s.history := by
  decide +kernel

end LoggedPath

end BcpFlux.Socket
