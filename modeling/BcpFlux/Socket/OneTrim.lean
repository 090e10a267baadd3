import BcpFlux.Socket.Path

/-! # One trim per congestion event

A packet of a flow carries the epoch it was stamped in, and a loss trims the budget only if the
newest epoch it names has been reached; every trim starts a new epoch.  A transfer stamps no epoch:
it keeps a barrier of its own, set where it stood at its last loss, and reports the epoch of the
peer.
-/

namespace BcpFlux.Socket
open Library Peer BcpFlux.Flow BcpFlux.Transfer Function

/-! ## The packets an acknowledgement of a transfer names -/

theorem foldl_resolve_barrier (now : ℕ) (seqs : List ℕ) (p : OutTransfer × AckReport) :
    (seqs.foldl (OutTransfer.resolve now) p).1.lossBarrierSeq = p.1.lossBarrierSeq := by
  induction seqs generalizing p with
  | nil => rfl
  | cons seq seqs ih =>
    refine (ih _).trans ?_
    unfold OutTransfer.resolve
    split <;> rfl

theorem exists_missing {out : OutTransfer} {recvNext : ℕ} {bitmap : List Bool} {now : ℕ}
    (h : (out.onAck recvNext bitmap now).2.1.lostBytes ≠ 0) :
    ∃ seq ∈ (out.applyAck (min recvNext out.packetCount) bitmap now).1.missingSeqs,
      out.lossBarrierSeq ≤ seq := by
  have hbarrier : (out.applyAck (min recvNext out.packetCount) bitmap now).1.lossBarrierSeq =
      out.lossBarrierSeq := foldl_resolve_barrier now _ _
  dsimp only [OutTransfer.onAck] at h
  generalize (out.applyAck (min recvNext out.packetCount) bitmap now).1 = out' at h hbarrier ⊢
  suffices hmem : ∃ seq, seq ∈ out'.missingSeqs by
    obtain ⟨seq, hseq⟩ := hmem
    exact ⟨seq, hseq, hbarrier ▸ (OutTransfer.mem_missingSeqs.mp hseq).1.2.1⟩
  apply List.exists_mem_of_ne_nil
  intro hnone
  apply h
  rw [OutTransfer.missing_eq, hnone]
  rfl

namespace Path
variable (lim : Limits) (stall : ℕ) (s : Path)

/-! ## The packets an acknowledgement of flows names -/

/-- The newest epoch of the feedback is that of a cell it names, outstanding until then. -/
def NamesEpoch (flows : List OutAssociation) (delta : CongestionDelta) (cells : List (ℕ × ℕ)) :
    Prop :=
  delta.sawLoss = true → ∃ cell ∈ cells, ∃ flow : OutAssociation, flows[cell.1]? = some flow ∧
    cell.2 < flow.inflightCap ∧ (flow.inFlight cell.2).Outstanding ∧
    delta.lostEpoch = (flow.inFlight cell.2).congestionEpoch

theorem sweep_names (timers : FlowTimers) (acks : List (ℕ × AckEntry)) :
    Aged s.flows (s.sweep timers acks).flows ∧
      NamesEpoch s.flows (s.sweep timers acks).delta (s.sweep timers acks).cells := by
  refine List.foldlRecOn (motive := fun acc : AckSweep => Aged s.flows acc.flows ∧
    NamesEpoch s.flows acc.delta acc.cells) acks _ ⟨.refl s.flows, fun h => nomatch h⟩ ?_
  rintro acc ⟨haged, hnames⟩ a -
  rw [sweepEntry]
  cases hflow : acc.flows[a.1]? with
  | none => exact ⟨haged, hnames⟩
  | some flow =>
    have hages := flow.applyAck_ages timers s.ctl.rtt a.2 s.clock acc.delta
    refine ⟨haged.set hflow (flow.applyAck_walks timers s.ctl.rtt a.2 s.clock acc.delta).same.cap hages,
      fun hloss => ?_⟩
    rcases flow.applyAck_lost timers s.ctl.rtt a.2 s.clock acc.delta hloss with
      ⟨hsaw, hepoch⟩ | ⟨j, hj, hlost, hopen, hepoch⟩
    · obtain ⟨cell, hcell, flow₀, hflow₀, hlt, hopen, hsame⟩ := hnames hsaw
      exact ⟨cell, List.mem_append_left _ hcell, flow₀, hflow₀, hlt, hopen, hepoch.trans hsame⟩
    · obtain ⟨flow₀, hflow₀, hcap, hages₀⟩ := haged a.1 flow hflow
      obtain ⟨hopen₀, hsame⟩ := (hages₀ j).opened hopen
      refine ⟨(a.1, j), List.mem_append_right _ (List.mem_map.mpr ⟨j, ?_, rfl⟩), flow₀, hflow₀,
        hcap ▸ hj, hopen₀, hepoch.trans hsame⟩
      exact List.mem_filter.mpr ⟨List.mem_range.mpr hj, decide_eq_true hlost⟩

theorem tick_names {i : ℕ} {flow : OutAssociation} (hflow : s.flows[i]? = some flow)
    (timers : FlowTimers) (peer : PeerBudget) (now : ℕ) :
    NamesEpoch s.flows (flow.retransmitInflight timers peer now .zero).delta
      (timedOutCells i flow (flow.retransmitInflight timers peer now .zero).flow) := by
  intro hloss
  obtain ⟨j, hj, hopen, hfreed, hepoch⟩ := flow.retransmitInflight_lost timers peer now hloss
  refine ⟨(i, j), List.mem_map.mpr ⟨j, ?_, rfl⟩, flow, hflow, hj, hopen, hepoch⟩
  exact List.mem_filter.mpr ⟨List.mem_range.mpr hj, decide_eq_true ⟨hopen, hfreed⟩⟩

/-! ## Which cells are filled -/

def stampedCell : PathEvent → Option (ℕ × ℕ)
  | .send i packetSlot wireSize flying => s.flows[i]?.bind fun flow =>
    if (flow.admitOut s.ctl.toPeerBudget packetSlot wireSize flying s.clock).1 = .sent
    then some (i, slot flow.inflightCap flow.nextSeq) else none
  | .drain i candidateEpoch candidateSlot => s.flows[i]?.bind fun flow =>
    if (flow.claimWaiting s.ctl.toPeerBudget candidateEpoch candidateSlot s.clock).1 = true
    then some (i, slot flow.inflightCap flow.nextSeq) else none
  | _ => none

/-- A cell after the work of an event: free, stamped by it with the epoch of the peer, or older. -/
def Worn (stamped : Option (ℕ × ℕ)) (i j : ℕ) (e' : InFlightEntry) : Prop :=
  e'.seq = 0 ∨ (stamped = some (i, j) ∧ e'.congestionEpoch = s.ctl.congestionEpoch ∧
      e'.freeResend = false) ∨
    stamped ≠ some (i, j) ∧ ∃ flow : OutAssociation, s.flows[i]? = some flow ∧
      (flow.inFlight j).Ages e'

def AllWorn (stamped : Option (ℕ × ℕ)) (flows' : List OutAssociation) : Prop :=
  ∀ (i : ℕ) (flow' : OutAssociation), flows'[i]? = some flow' →
    ∀ j, s.Worn stamped i j (flow'.inFlight j)

variable {s}

theorem allWorn_same {stamped : Option (ℕ × ℕ)} (hnone : stamped = none) :
    s.AllWorn stamped s.flows :=
  fun _ flow hflow _ => .inr (.inr ⟨hnone ▸ nofun, flow, hflow, .refl _⟩)

theorem allWorn_set {stamped : Option (ℕ × ℕ)} {i : ℕ} {flow flow' : OutAssociation}
    (hflow : s.flows[i]? = some flow) (hplace : ∀ k j, stamped = some (k, j) → k = i)
    (h : ∀ j, s.Worn stamped i j (flow'.inFlight j)) :
    s.AllWorn stamped (s.flows.set i flow') := by
  intro k flowk hk j
  rw [List.getElem?_set] at hk
  by_cases hik : i = k
  · subst hik
    rw [if_pos rfl, if_pos (List.getElem?_eq_some_iff.mp hflow).1, Option.some.injEq] at hk
    exact hk ▸ h j
  · rw [if_neg hik] at hk
    exact .inr (.inr ⟨fun heq => hik (hplace k j heq).symm, flowk, hk, .refl _⟩)

theorem allWorn_ages {i : ℕ} {flow flow' : OutAssociation} (hflow : s.flows[i]? = some flow)
    (h : ∀ j, (flow.inFlight j).Ages (flow'.inFlight j)) :
    s.AllWorn none (s.flows.set i flow') :=
  allWorn_set hflow nofun fun j => .inr (.inr ⟨nofun, flow, hflow, h j⟩)

theorem allWorn_stamp {i : ℕ} {flow : OutAssociation} (hflow : s.flows[i]? = some flow)
    {rest : List WaitingEntry} {peer : PeerBudget} (hpeer : steady peer = steady s.ctl.toPeerBudget)
    (packetSlot : Option ℕ) (wireSize : ℕ) (flying : Bool) (now : ℕ) :
    s.AllWorn (some (i, slot flow.inflightCap flow.nextSeq)) (s.flows.set i
      (({ flow with waiting := rest }).stamp peer packetSlot wireSize flying now).1) := by
  refine allWorn_set hflow (fun k j h => by cases h; rfl) fun j => ?_
  dsimp only [OutAssociation.stamp]
  by_cases hj : j = slot flow.inflightCap flow.nextSeq
  · subst hj
    rw [put_self]
    exact .inr (.inl ⟨rfl, congrArg (fun t : RttEstimate × ℕ × ℕ => t.2.2) hpeer, rfl⟩)
  · rw [put_of_ne _ _ hj]
    exact .inr (.inr ⟨fun h => hj (by cases h; rfl), flow, hflow, .refl _⟩)

theorem work_worn (hmarked : ∀ flow ∈ s.flows, ∀ j, (flow.inFlight j).Marked) (e : PathEvent) :
    s.AllWorn (s.stampedCell e) (s.work lim stall e).1.flows := by
  cases e with
  | sessionStarted | openTransfer => exact allWorn_same rfl
  | openFlow oldEpoch p =>
    intro i flow' hi j
    rw [work, List.getElem?_append] at hi
    split_ifs at hi
    · exact allWorn_same rfl i flow' hi j
    · refine .inl ?_
      rw [List.mem_singleton.mp (List.mem_of_getElem? hi)]
      rfl
  | send i packetSlot wireSize flying =>
    dsimp only [work, stampedCell]
    cases hflow : s.flows[i]? with
    | none => exact allWorn_same rfl
    | some flow =>
      have hadmitted := flow.admitOut_admission s.ctl.toPeerBudget packetSlot wireSize flying s.clock
      dsimp only [Option.bind_some]
      generalize flow.admitOut s.ctl.toPeerBudget packetSlot wireSize flying s.clock = r
        at hadmitted ⊢
      cases hadmitted with
      | refused _ _ _ hsent =>
        rw [if_neg hsent]
        exact allWorn_ages hflow fun _ => .refl _
      | stamped =>
        rw [if_pos rfl]
        exact allWorn_stamp hflow (pacingAllows_steady _ _ _) _ wireSize flying s.clock
      | queued | evicted =>
        rw [if_neg (by simp)]
        exact allWorn_ages hflow fun _ => .refl _
  | drain i candidateEpoch candidateSlot =>
    dsimp only [work, stampedCell]
    cases hflow : s.flows[i]? with
    | none => exact allWorn_same rfl
    | some flow =>
      have hclaim := flow.claimWaiting_claim s.ctl.toPeerBudget candidateEpoch candidateSlot s.clock
      dsimp only [Option.bind_some]
      generalize flow.claimWaiting s.ctl.toPeerBudget candidateEpoch candidateSlot s.clock = r
        at hclaim ⊢
      cases hclaim with
      | kept =>
        rw [if_neg (by simp)]
        exact allWorn_ages hflow fun _ => .refl _
      | stamped head rest =>
        rw [if_pos rfl]
        exact allWorn_stamp hflow (pacingAllows_steady _ _ _) _ head.wireSize true s.clock
  | flowAck acks =>
    intro i flow' hi j
    obtain ⟨flow, hflow, -, hages⟩ := (s.sweep_names (timers lim stall) acks).1 i flow' hi
    exact .inr (.inr ⟨by simp [stampedCell], flow, hflow, hages j⟩)
  | tick i =>
    rw [work]
    cases hflow : s.flows[i]? with
    | none => exact allWorn_same rfl
    | some flow =>
      have hages := flow.retransmitInflight_ages (timers lim stall) s.ctl.toPeerBudget s.clock
        (hmarked flow (List.mem_of_getElem? hflow))
      dsimp only [updateOutFlow]
      split_ifs
      · exact allWorn_ages hflow fun _ => .of_free rfl
      · exact allWorn_ages hflow hages
      · exact allWorn_ages hflow hages
      · exact allWorn_same rfl
  | refundResends i seqs =>
    rw [work]
    cases hflow : s.flows[i]? with
    | none => exact allWorn_same rfl
    | some flow => exact allWorn_ages hflow (flow.refundResendAttempts_ages seqs)
  | closeFlow i life =>
    rw [work]
    cases hflow : s.flows[i]? with
    | none => exact allWorn_same rfl
    | some flow => exact allWorn_ages hflow fun _ => .of_free rfl
  | transferPass k | transferAck k | transferReject k =>
    rw [work]
    cases s.transfers[k]? <;> exact allWorn_same rfl

end Path

/-! ## The record -/

/-- How often the epoch had advanced, and the budget been reduced on loss, at a moment of a run. -/
structure TrimCount where
  epochs : ℕ
  trims : ℕ

structure TrimmedPath where
  path : Path
  count : TrimCount
  /-- When the packet of a cell was stamped, by association and cell. -/
  born : ℕ → ℕ → TrimCount
  /-- The first sequence each transfer had not sent at the most recent reduction on loss. -/
  unsent : ℕ → ℕ

namespace TrimmedPath
variable (lim : Limits) (stall : ℕ)

def registered (now : ℕ) : TrimmedPath := ⟨.registered now, ⟨0, 0⟩, fun _ _ => ⟨0, 0⟩, fun _ => 0⟩

def trims (g : TrimmedPath) (e : ℕ × PathEvent) : Bool :=
  let r := g.path.outcome lim stall e
  r.2.any fun report =>
    ((r.1.ctl.observe lim report.delta r.1.clock).probe lim report.delta r.1.clock).lossCounts
      report.delta

def step (g : TrimmedPath) (e : ℕ × PathEvent) : TrimmedPath :=
  let path' := g.path.step lim stall e
  { path := path'
    count :=
      ⟨g.count.epochs + (path'.ctl.congestionEpoch + 256 - g.path.ctl.congestionEpoch) % 256,
        g.count.trims + (g.trims lim stall e).toNat⟩
    born := match (g.path.wait e.1).stampedCell e.2 with
      | some (i, j) => update g.born i (update (g.born i) j g.count)
      | none => g.born
    unsent := if g.trims lim stall e
      then fun k => (path'.transfers[k]?.map OutTransfer.nextSeq).getD 0 else g.unsent }

/-- Every packet a report names was stamped before the most recent reduction on loss. -/
def NamesOnlyOld (g : TrimmedPath) (report : Report) : Prop :=
  (∀ cell ∈ report.cells, (g.born cell.1 cell.2).trims < g.count.trims) ∧
    ∀ named ∈ report.seqs, named.2 < g.unsent named.1

instance (g : TrimmedPath) (report : Report) : Decidable (g.NamesOnlyOld report) :=
  inferInstanceAs (Decidable (_ ∧ _))

/-- A report of nothing but old packets does not take the loss branch. -/
def OncePerEvent (g : TrimmedPath) (e : ℕ × PathEvent) : Prop :=
  ∀ report ∈ (g.path.outcome lim stall e).2, g.NamesOnlyOld report → g.trims lim stall e = false

/-- The epoch has advanced by fewer than 128 since any outstanding packet was stamped. -/
def ShortLived (g : TrimmedPath) : Prop :=
  ∀ i < g.path.flows.length, ∀ flow ∈ g.path.flows[i]?, ∀ j < flow.inflightCap,
    (flow.inFlight j).Outstanding → g.count.epochs < (g.born i j).epochs + 128

/-- An acknowledgement that finds a sequence missing which its transfer had sent when the budget
was last reduced on loss finds the barrier of the transfer past all it had sent then. -/
def BarrierCurrent (g : TrimmedPath) (micros : ℕ) : PathEvent → Prop
  | .transferAck k recvNext bitmap => ∀ out ∈ g.path.transfers[k]?,
      (∃ seq ∈ (out.applyAck (min recvNext out.packetCount) bitmap
        (g.path.wait micros).clock).1.missingSeqs, seq < g.unsent k) →
      g.unsent k ≤ out.lossBarrierSeq
  | _ => True

instance (g : TrimmedPath) : Decidable g.ShortLived :=
  inferInstanceAs (Decidable (∀ i < g.path.flows.length, _))

instance (g : TrimmedPath) (micros : ℕ) (e : PathEvent) : Decidable (g.BarrierCurrent micros e) := by
  unfold BarrierCurrent
  split <;> infer_instance

/-! ## The epoch of a packet tells how many trims it has seen -/

/-- What is known of a cell whose packet was stamped at `born`. -/
structure Dated (now born : TrimCount) (e : InFlightEntry) : Prop where
  marked : e.Marked
  epoch : e.Outstanding → e.congestionEpoch = born.epochs % 256
  trims : e.Outstanding → born.trims ≤ now.trims
  /-- Every trim has advanced the epoch. -/
  since : e.Outstanding → now.trims + born.epochs ≤ born.trims + now.epochs

structure Inv (g : TrimmedPath) : Prop where
  epoch : g.path.ctl.congestionEpoch = g.count.epochs % 256
  dated : ∀ (i : ℕ) (flow : OutAssociation), g.path.flows[i]? = some flow →
    ∀ j, Dated g.count (g.born i j) (flow.inFlight j)

theorem inv_registered (now : ℕ) : (registered now).Inv := ⟨rfl, nofun⟩

theorem Dated.ages {now born : TrimCount} {e e' : InFlightEntry} (h : Dated now born e)
    (hages : e.Ages e') : Dated now born e' where
  marked := hages.marked h.marked
  epoch := fun hopen => (hages.opened hopen).2.trans (h.epoch (hages.opened hopen).1)
  trims := fun hopen => h.trims (hages.opened hopen).1
  since := fun hopen => h.since (hages.opened hopen).1

theorem Dated.later {now later born : TrimCount} {e : InFlightEntry} (h : Dated now born e)
    (htrims : now.trims ≤ later.trims)
    (hepochs : later.trims + now.epochs ≤ now.trims + later.epochs) : Dated later born e where
  marked := h.marked
  epoch := h.epoch
  trims := fun hopen => (h.trims hopen).trans htrims
  since := fun hopen => by have := h.since hopen; omega

variable {lim stall} {g : TrimmedPath}

/-- The work of an event dates the packets it stamps, and the others keep their date. -/
theorem Inv.worked (h : g.Inv) (e : ℕ × PathEvent) (i : ℕ) (flow' : OutAssociation)
    (hflow : (g.path.outcome lim stall e).1.flows[i]? = some flow') (j : ℕ) :
    Dated g.count ((g.step lim stall e).born i j) (flow'.inFlight j) := by
  have hmarked : ∀ flow ∈ (g.path.wait e.1).flows, ∀ j, (flow.inFlight j).Marked := by
    intro flow hmem j
    obtain ⟨k, hk⟩ := List.mem_iff_getElem?.mp hmem
    exact (h.dated k flow hk j).marked
  have hborn : (g.step lim stall e).born i j =
      if (g.path.wait e.1).stampedCell e.2 = some (i, j) then g.count else g.born i j := by
    dsimp only [step]
    cases (g.path.wait e.1).stampedCell e.2 with
    | none => rfl
    | some cell =>
      obtain ⟨i', j'⟩ := cell
      by_cases hi : i = i'
      · subst hi
        by_cases hj : j = j'
        · simp [hj]
        · simp [update_of_ne hj, Ne.symm hj]
      · simp [update_of_ne hi, Ne.symm hi]
  rw [hborn]
  rcases Path.work_worn lim stall hmarked e.2 i flow' hflow j with
    hfree | ⟨hstamped, hepoch, hpaid⟩ | ⟨hother, flow, hold, hages⟩
  · exact ⟨fun hlive => absurd hfree hlive, fun hopen => absurd hfree hopen.1,
      fun hopen => absurd hfree hopen.1, fun hopen => absurd hfree hopen.1⟩
  · rw [if_pos hstamped]
    refine ⟨fun _ hfree => ?_, fun _ => hepoch.trans h.epoch, fun _ => le_rfl, fun _ => le_rfl⟩
    rw [hpaid] at hfree
    cases hfree
  · rw [if_neg hother]
    exact (h.dated i flow hold j).ages hages

/-- The controller at the moment of the report still has the epoch of the state. -/
theorem outcome_epoch (lim : Limits) (stall : ℕ) (g : TrimmedPath) (e : ℕ × PathEvent) :
    (g.path.outcome lim stall e).1.ctl.congestionEpoch = g.path.ctl.congestionEpoch := by
  obtain ⟨-, b, hctl, -, hepoch, -⟩ := Path.work_worked lim stall (g.path.wait e.1) e.2
  exact (congrArg (fun c : Controller => c.congestionEpoch) hctl).trans hepoch

/-- A step advances the epoch by what it adds to the count, and by one at least if it trims. -/
theorem step_epoch (lim : Limits) (stall : ℕ) (hword : g.path.ctl.congestionEpoch < 256)
    (e : ℕ × PathEvent) :
    ∃ k ≤ 2, (g.path.step lim stall e).ctl.congestionEpoch =
      (g.path.ctl.congestionEpoch + k) % 256 ∧ (g.trims lim stall e).toNat ≤ k := by
  have hepoch := g.outcome_epoch lim stall e
  rw [Path.step, trims]
  generalize g.path.outcome lim stall e = r at hepoch ⊢
  obtain ⟨path, report⟩ := r
  cases report with
  | none => exact ⟨0, by omega, hepoch.trans (Nat.mod_eq_of_lt hword).symm, Nat.zero_le 0⟩
  | some report =>
    obtain ⟨k, hk, heq, htrim⟩ := Controller.applyCongestion_epoch lim path.ctl report.delta
      path.clock (hepoch ▸ hword)
    refine ⟨k, hk, hepoch ▸ heq, ?_⟩
    dsimp only [Option.any_some]
    cases hloss : ((path.ctl.observe lim report.delta path.clock).probe lim report.delta
      path.clock).lossCounts report.delta with
    | false => exact Nat.zero_le k
    | true => exact htrim hloss

theorem Inv.step (h : g.Inv) (e : ℕ × PathEvent) : (g.step lim stall e).Inv := by
  have hword : g.path.ctl.congestionEpoch < 256 := h.epoch ▸ Nat.mod_lt _ (by decide)
  obtain ⟨k, hk, hepoch, htrim⟩ := step_epoch lim stall hword e
  have hadvance : (g.step lim stall e).count.epochs = g.count.epochs + k := by
    dsimp only [TrimmedPath.step]
    rw [hepoch]
    omega
  refine ⟨?_, fun i flow hflow j => ?_⟩
  · rw [hadvance]
    refine hepoch.trans ?_
    rw [h.epoch]
    omega
  · have hflows : (g.step lim stall e).path.flows = (g.path.outcome lim stall e).1.flows := by
      dsimp only [TrimmedPath.step, Path.step]
      cases (g.path.outcome lim stall e).2 <;> rfl
    refine (h.worked e i flow (hflows ▸ hflow) j).later (Nat.le_add_right _ _) ?_
    have htrims : (g.step lim stall e).count.trims =
        g.count.trims + (g.trims lim stall e).toNat := rfl
    omega

/-! ## The rule -/

/-- A report whose newest epoch is that of an old packet does not count. -/
theorem Inv.not_trims (h : g.Inv) (hshort : g.ShortLived) {e : ℕ × PathEvent} {report : Report}
    (hreport : report ∈ (g.path.outcome lim stall e).2)
    (hnames : Path.NamesEpoch g.path.flows report.delta report.cells)
    (hold : g.NamesOnlyOld report) : g.trims lim stall e = false := by
  have hword : g.path.ctl.congestionEpoch < 256 := h.epoch ▸ Nat.mod_lt _ (by decide)
  have hepoch := g.outcome_epoch lim stall e
  rw [trims]
  generalize g.path.outcome lim stall e = r at hreport hepoch ⊢
  rw [Option.mem_def] at hreport
  rw [hreport, Option.any_some]
  obtain ⟨k, hk, hseen⟩ := Controller.observe_probe_epoch lim r.1.ctl report.delta r.1.clock
    (hepoch ▸ hword)
  rw [Controller.lossCounts, hseen, hepoch, h.epoch]
  cases hloss : report.delta.sawLoss with
  | false => rfl
  | true =>
    obtain ⟨cell, hcell, flow, hflow, hj, hopen, hlost⟩ := hnames hloss
    have hdated := h.dated cell.1 flow hflow cell.2
    have hyoung := hshort cell.1 (List.getElem?_eq_some_iff.mp hflow).1 flow hflow cell.2 hj hopen
    have hbefore := hold.1 cell hcell
    have hsince := hdated.since hopen
    rw [hlost, hdated.epoch hopen, Bool.true_and, epochReached, decide_eq_false_iff_not]
    omega

theorem Inv.oncePerEvent (h : g.Inv) {e : ℕ × PathEvent} (hshort : g.ShortLived)
    (hbarrier : g.BarrierCurrent e.1 e.2) : g.OncePerEvent lim stall e := by
  obtain ⟨micros, event⟩ := e
  intro report hreport hold
  cases Path.work_report hreport with
  | flowAck acks =>
    exact h.not_trims hshort hreport ((g.path.wait micros).sweep_names _ acks).2 hold
  | tick i flow hflow =>
    exact h.not_trims hshort hreport ((g.path.wait micros).tick_names hflow _ _ _) hold
  | transferAck k recvNext bitmap out hout =>
    refine h.not_trims hshort hreport (fun hloss => ?_) hold
    -- the named sequences are past the barrier, and the barrier is past all old ones
    have hlost : (out.onAck recvNext bitmap (g.path.wait micros).clock).2.1.lostBytes ≠ 0 :=
      of_decide_eq_true hloss
    obtain ⟨seq, hseq, hpast⟩ := exists_missing hlost
    have hbefore : seq < g.unsent k := hold.2 (k, seq) (List.mem_map.mpr ⟨seq, hseq, rfl⟩)
    have hcurrent : g.unsent k ≤ out.lossBarrierSeq := hbarrier out hout ⟨seq, hseq, hbefore⟩
    omega

end TrimmedPath

end BcpFlux.Socket
