import BcpFlux.Flow.Turns
import BcpFlux.Library.Ledger

/-! # Walks over the sender's ring

Acknowledgements, loss verdicts, retransmit passes and refunds all walk the in-flight ring.
`Walks` says once what such a walk may do: it keeps the sequence, the staging copy and the size
of a cell, or frees a cell whose sequence `ok` allows.
-/

namespace BcpFlux.Flow
open Library Peer

def CongestionDelta.resolved (delta : CongestionDelta) : ℕ × ℕ :=
  (delta.resolvedBytes, delta.resolvedPackets)

def InFlightEntry.charge (e : InFlightEntry) : ℕ × ℕ :=
  if e.seq ≠ 0 ∧ e.acked = false then (e.wireSize, 1) else 0

/-- The cell is free, or of the size it was. -/
def SameWeight (e' e : InFlightEntry) : Prop :=
  e'.seq ≠ 0 → e.seq ≠ 0 ∧ e'.wireSize = e.wireSize

theorem SameWeight.refl (e : InFlightEntry) : SameWeight e e := fun h => ⟨h, rfl⟩

namespace OutAssociation

/-- What the association has charged to its peer: the sum `DrainOutInflight` takes. -/
def owes (flow : OutAssociation) : ℕ × ℕ :=
  total InFlightEntry.charge flow.inflightCap flow.inFlight

def ringHeld (flow : OutAssociation) : Multiset ℕ :=
  contents (fun e : InFlightEntry => (e.packetSlot.toList : Multiset ℕ)) flow.inflightCap
    flow.inFlight

def SameHold (e' e : InFlightEntry) : Prop := e'.seq = e.seq ∧ e'.packetSlot = e.packetSlot

def Freed (e' : InFlightEntry) : Prop := e'.seq = 0 ∧ e'.packetSlot = none

structure SameRecord (flow' flow : OutAssociation) : Prop where
  mode : flow'.mode = flow.mode
  life : flow'.life = flow.life
  next : flow'.nextSeq = flow.nextSeq
  cap : flow'.inflightCap = flow.inflightCap
  waiting : flow'.waiting = flow.waiting

/-- A turn that keeps what the cell holds, or frees the cell, if `ok` allows it, and gives back
its copy. -/
def Lets (ok : ℕ → Prop) (e e' : InFlightEntry) (back back' : List ℕ) : Prop :=
  SameHold e' e ∧ back' = back ∨ (Freed e' ∧ ok e.seq) ∧ back' = back ++ e.packetSlot.toList

/-- What a turn takes out of a cell it reports, and it counts what it reports. -/
structure Pays (e e' : InFlightEntry) (left left' : ℕ) (paid paid' : ℕ × ℕ) : Prop where
  weight : SameWeight e' e
  charge : e'.charge + paid' = e.charge + paid
  grows : paid.2 ≤ paid'.2
  left_eq : left' = left - (paid'.2 - paid.2)

/-- A walk over the ring that frees only cells whose sequence satisfies `ok`. -/
structure Walks (ok : ℕ → Prop) (flow : OutAssociation) (paid : ℕ × ℕ) (flow' : OutAssociation)
    (paid' : ℕ × ℕ) (released : List ℕ) : Prop where
  same : SameRecord flow' flow
  cell : ∀ i, SameHold (flow'.inFlight i) (flow.inFlight i) ∨
    Freed (flow'.inFlight i) ∧ ok (flow.inFlight i).seq
  weight : ∀ i, SameWeight (flow'.inFlight i) (flow.inFlight i)
  given : ∀ a ∈ released, ∃ i, (flow.inFlight i).packetSlot = some a ∧
    (flow'.inFlight i).packetSlot = none
  held : IsPow2 flow.inflightCap → flow'.ringHeld + ↑released = flow.ringHeld
  account : IsPow2 flow.inflightCap → flow'.owes + paid' = flow.owes + paid
  grows : paid.2 ≤ paid'.2
  count : flow'.unresolved = flow.unresolved - (paid'.2 - paid.2)

variable {ok : ℕ → Prop} {flow flow' flow'' : OutAssociation} {paid paid' paid'' : ℕ × ℕ}
  {released released' : List ℕ}

theorem SameHold.refl (e : InFlightEntry) : SameHold e e := ⟨rfl, rfl⟩

theorem SameRecord.refl (flow : OutAssociation) : SameRecord flow flow := ⟨rfl, rfl, rfl, rfl, rfl⟩

theorem SameRecord.trans (h : SameRecord flow'' flow') (h' : SameRecord flow' flow) :
    SameRecord flow'' flow :=
  ⟨h.mode.trans h'.mode, h.life.trans h'.life, h.next.trans h'.next, h.cap.trans h'.cap,
    h.waiting.trans h'.waiting⟩

theorem Walks.of_ring (flow flow' : OutAssociation) (ok : ℕ → Prop) (paid : ℕ × ℕ)
    (same : SameRecord flow' flow) (hring : flow'.inFlight = flow.inFlight)
    (hcount : flow'.unresolved = flow.unresolved) :
    Walks ok flow paid flow' paid [] where
  same := same
  cell := fun i => Or.inl (hring ▸ SameHold.refl _)
  weight := fun i => hring ▸ SameWeight.refl _
  given := fun _ ha => absurd ha List.not_mem_nil
  held := fun _ => by rw [ringHeld, ringHeld, hring, same.cap, Multiset.coe_nil, add_zero]
  account := fun _ => by rw [owes, owes, hring, same.cap]
  grows := le_rfl
  count := by rw [hcount, Nat.sub_self, Nat.sub_zero]

theorem Walks.refl (flow : OutAssociation) (ok : ℕ → Prop) (paid : ℕ × ℕ) :
    Walks ok flow paid flow paid [] :=
  Walks.of_ring flow flow ok paid (SameRecord.refl flow) rfl rfl

theorem Walks.trans (h : Walks ok flow paid flow' paid' released)
    (h' : Walks ok flow' paid' flow'' paid'' released') :
    Walks ok flow paid flow'' paid'' (released ++ released') where
  same := h'.same.trans h.same
  cell := by
    intro i
    rcases h.cell i with hs | ⟨hf, hok⟩
    · rcases h'.cell i with hs' | ⟨hf', hok'⟩
      · exact Or.inl ⟨hs'.1.trans hs.1, hs'.2.trans hs.2⟩
      · exact Or.inr ⟨hf', hs.1 ▸ hok'⟩
    · rcases h'.cell i with hs' | ⟨hf', -⟩
      · exact Or.inr ⟨⟨hs'.1.trans hf.1, hs'.2.trans hf.2⟩, hok⟩
      · exact Or.inr ⟨hf', hok⟩
  weight := by
    intro i hi
    obtain ⟨hseq', hsize'⟩ := h'.weight i hi
    obtain ⟨hseq, hsize⟩ := h.weight i hseq'
    exact ⟨hseq, hsize'.trans hsize⟩
  given := by
    intro a ha
    rcases List.mem_append.mp ha with ha | ha
    · obtain ⟨i, h1, h2⟩ := h.given a ha
      refine ⟨i, h1, ?_⟩
      rcases h'.cell i with hs' | ⟨hf', -⟩
      · rw [hs'.2, h2]
      · exact hf'.2
    · obtain ⟨i, h1, h2⟩ := h'.given a ha
      refine ⟨i, ?_, h2⟩
      rcases h.cell i with hs | ⟨hf, -⟩
      · rw [← hs.2, h1]
      · rw [hf.2] at h1
        cases h1
  held := by
    intro hcap
    rw [← h.held hcap, ← h'.held (h.same.cap ▸ hcap), ← Multiset.coe_add]
    abel
  account := fun hcap => (h'.account (h.same.cap ▸ hcap)).trans (h.account hcap)
  grows := h.grows.trans h'.grows
  count := by
    have := h.grows
    have := h'.grows
    rw [h'.count, h.count]
    omega

theorem Walks.mono {ok' : ℕ → Prop} (h : Walks ok flow paid flow' paid' released)
    (himp : ∀ s, ok s → ok' s) : Walks ok' flow paid flow' paid' released :=
  { h with cell := fun i => (h.cell i).imp_right fun ⟨hf, hok⟩ => ⟨hf, himp _ hok⟩ }

theorem Walks.of_scan {β : Type*} (ok : ℕ → Prop) (f : InFlightEntry → β → InFlightEntry × β)
    (back : β → List ℕ) (left : β → ℕ) (pays : β → ℕ × ℕ)
    (hturn : ∀ e b, Lets ok e (f e b).1 (back b) (back (f e b).2))
    (hpays : ∀ e b, Pays e (f e b).1 (left b) (left (f e b).2) (pays b) (pays (f e b).2))
    (flow : OutAssociation) (acc : β) (hacc : back acc = []) (hleft : left acc = flow.unresolved) :
    let r := scan f flow.inflightCap flow.inFlight acc
    Walks ok flow (pays acc) { flow with inFlight := r.1, unresolved := left r.2 } (pays r.2)
      (back r.2) := by
  have hcount := scan_acc f flow.inFlight acc
    (P := fun _ b => (pays acc).2 ≤ (pays b).2 ∧
      left b = flow.unresolved - ((pays b).2 - (pays acc).2)) flow.inflightCap
    ⟨le_rfl, by rw [hleft, Nat.sub_self, Nat.sub_zero]⟩ (by
      rintro i - ⟨hle, hcount⟩
      obtain ⟨-, -, hgrows, heq⟩ := hpays (flow.inFlight i) (scan f i flow.inFlight acc).2
      exact ⟨hle.trans hgrows, by omega⟩)
  refine ⟨⟨rfl, rfl, rfl, rfl, rfl⟩, ?_, ?_, ?_, ?_, ?_, hcount.1, hcount.2⟩
  · intro i
    dsimp only
    rw [scan_cell]
    split
    · rcases hturn (flow.inFlight i) (scan f i flow.inFlight acc).2 with ⟨hs, -⟩ | ⟨hf, -⟩
      · exact Or.inl hs
      · exact Or.inr hf
    · exact Or.inl (SameHold.refl _)
  · intro i
    dsimp only
    rw [scan_cell]
    split
    · exact (hpays _ _).weight
    · exact SameWeight.refl _
  · have hgiven := scan_acc f flow.inFlight acc
      (P := fun m b => ∀ a ∈ back b, ∃ i < m, (flow.inFlight i).packetSlot = some a ∧
        (f (flow.inFlight i) (scan f i flow.inFlight acc).2).1.packetSlot = none) flow.inflightCap
      (by rw [hacc]; simp)
      (by
        intro i hi ih a ha
        rcases hturn (flow.inFlight i) (scan f i flow.inFlight acc).2 with
          ⟨-, hb⟩ | ⟨⟨hf, -⟩, hb⟩
        · rw [hb] at ha
          obtain ⟨j, hj, hrest⟩ := ih a ha
          exact ⟨j, by omega, hrest⟩
        · rw [hb, List.mem_append] at ha
          rcases ha with ha | ha
          · obtain ⟨j, hj, hrest⟩ := ih a ha
            exact ⟨j, by omega, hrest⟩
          · exact ⟨i, by omega, by simpa using ha, hf.2⟩)
    intro a ha
    obtain ⟨i, hi, h1, h2⟩ := hgiven a ha
    refine ⟨i, h1, ?_⟩
    dsimp only
    rw [scan_cell, if_pos hi]
    exact h2
  · intro _
    have hscan := contents_scan (fun e : InFlightEntry => (e.packetSlot.toList : Multiset ℕ))
      flow.inFlight f (fun b => (back b : Multiset ℕ)) ?_ flow.inflightCap acc
    · rw [hacc, Multiset.coe_nil, add_zero] at hscan
      exact hscan
    · intro e b
      rcases hturn e b with ⟨hs, hback⟩ | ⟨⟨hf, -⟩, hback⟩
      · rw [hback, hs.2]
      · rw [hback, hf.2, ← Multiset.coe_add]
        simp [add_comm]
  · exact fun _ => total_scan InFlightEntry.charge flow.inFlight f pays
      (fun e b => (hpays e b).charge) flow.inflightCap acc

theorem Walks.of_put {seq : ℕ} {e : InFlightEntry} (same : SameRecord flow' flow)
    (hring : flow'.inFlight = put flow.inflightCap flow.inFlight seq e)
    (hturn : Lets ok (flow.inFlight (slot flow.inflightCap seq)) e [] released)
    (hweight : SameWeight e (flow.inFlight (slot flow.inflightCap seq)))
    (hcharge : e.charge = (flow.inFlight (slot flow.inflightCap seq)).charge)
    (hcount : flow'.unresolved = flow.unresolved) (paid : ℕ × ℕ) :
    Walks ok flow paid flow' paid released where
  same := same
  cell := by
    intro i
    simp only [hring, put_apply]
    split_ifs with hi
    · subst hi
      exact hturn.imp And.left And.left
    · exact Or.inl (SameHold.refl _)
  weight := by
    intro i
    simp only [hring, put_apply]
    split_ifs with hi
    · exact hi ▸ hweight
    · exact SameWeight.refl _
  given := by
    intro a ha
    refine ⟨slot flow.inflightCap seq, ?_⟩
    rcases hturn with ⟨-, rfl⟩ | ⟨⟨hf, -⟩, rfl⟩
    · cases ha
    · exact ⟨by simpa using ha, by rw [hring, put_self]; exact hf.2⟩
  held := by
    intro hcap
    have hput := contents_put (fun e : InFlightEntry => (e.packetSlot.toList : Multiset ℕ))
      flow.inFlight hcap seq e
    rw [ringHeld, ringHeld, hring, same.cap]
    rcases hturn with ⟨hs, rfl⟩ | ⟨⟨hf, -⟩, rfl⟩
    · rw [hs.2] at hput
      rw [Multiset.coe_nil, add_zero]
      exact add_right_cancel hput
    · rw [hf.2] at hput
      simpa using hput
  account := by
    intro hcap
    have hput := total_put InFlightEntry.charge flow.inFlight hcap seq e
    rw [hcharge] at hput
    rw [owes, owes, hring, same.cap, add_right_cancel hput]
  grows := le_rfl
  count := by rw [hcount, Nat.sub_self, Nat.sub_zero]

/-! ## Acknowledgements -/

/-- What an acknowledgement allows the sender to forget: on an ordered flow only what
lies below the reported cursor, otherwise also what the ranges list. -/
def Acknowledged (mode : FlowMode) (ack : AckEntry) (s : ℕ) : Prop :=
  s < ack.recvNext ∨ isOrdered mode = false ∧ seqInRanges s ack.ranges = true

section Turn
variable {mode : FlowMode} {e : InFlightEntry}

theorem Resolution.lets {acked : Bool} {acc : Resolved} {r : InFlightEntry × Resolved}
    (h : Resolution mode acked e acc r)
    (hok : (acked = true → isOrdered mode = false) → ok e.seq) :
    Lets ok e r.1 acc.released r.2.released := by
  cases h with
  | idle | kept => exact .inl ⟨⟨rfl, rfl⟩, rfl⟩
  | freed _ hmode => exact .inr ⟨⟨⟨rfl, rfl⟩, hok hmode⟩, rfl⟩

theorem Resolution.pays {acked : Bool} {acc : Resolved} {r : InFlightEntry × Resolved}
    (h : Resolution mode acked e acc r) :
    Pays e r.1 acc.unresolved r.2.unresolved acc.delta.resolved r.2.delta.resolved := by
  -- the cell is charged no more, and the feedback carries what it was charged
  have hmoved : ∀ (e' : InFlightEntry) (delta : CongestionDelta), SameWeight e' e →
      e'.charge = 0 → e.Outstanding → delta.resolvedBytes = acc.delta.resolvedBytes + e.wireSize →
      delta.resolvedPackets = acc.delta.resolvedPackets + 1 →
      Pays e e' acc.unresolved (acc.unresolved - 1) acc.delta.resolved delta.resolved := by
    intro e' delta hweight hnone hopen hbytes hpackets
    have hcharge : e.charge = (e.wireSize, 1) := if_pos hopen
    refine ⟨hweight, ?_, ?_, ?_⟩
    · rw [hnone, hcharge, zero_add]
      exact Prod.ext (hbytes.trans (Nat.add_comm _ _)) (hpackets.trans (Nat.add_comm _ _))
    · simp [CongestionDelta.resolved, hpackets]
    · simp [CongestionDelta.resolved, hpackets]
  cases h with
  | idle => exact ⟨SameWeight.refl e, rfl, le_rfl, by simp⟩
  | kept hopen _ delta hbytes hpackets =>
    exact hmoved _ delta (fun h => ⟨h, rfl⟩) (if_neg (by simp)) hopen hbytes hpackets
  | freed hopen _ delta hbytes hpackets =>
    exact hmoved _ delta (fun h => absurd rfl h) rfl hopen hbytes hpackets

theorem AckTurn.lets {ack : AckEntry} {acc : AckScan} {r : InFlightEntry × AckScan}
    (h : AckTurn mode ack e acc r) :
    Lets (Acknowledged mode ack) e r.1 acc.resolved.released r.2.resolved.released := by
  cases h with
  | kept => exact .inl ⟨SameHold.refl e, rfl⟩
  | covered _ hcovers =>
    exact (resolveOutEntry_resolution mode true e acc.resolved).lets fun hmode =>
      hcovers.imp_right fun hlisted => ⟨hmode rfl, hlisted⟩

theorem AckTurn.pays {ack : AckEntry} {acc : AckScan} {r : InFlightEntry × AckScan}
    (h : AckTurn mode ack e acc r) :
    Pays e r.1 acc.resolved.unresolved r.2.resolved.unresolved acc.resolved.delta.resolved
      r.2.resolved.delta.resolved := by
  cases h with
  | kept => exact ⟨SameWeight.refl e, rfl, le_rfl, by simp⟩
  | covered => exact (resolveOutEntry_resolution mode true e acc.resolved).pays

theorem LossTurn.keeps {largestAcked now lossDelay : ℕ} {delta : CongestionDelta}
    {r : InFlightEntry × CongestionDelta} (h : LossTurn largestAcked now lossDelay e delta r)
    (left : ℕ) : SameHold r.1 e ∧ Pays e r.1 left left delta.resolved r.2.resolved := by
  cases h <;> exact ⟨⟨rfl, rfl⟩, fun h => ⟨h, rfl⟩, rfl, le_rfl, (Nat.sub_self _ ▸ rfl)⟩

theorem TickTurn.lets {now rto : ℕ} {acc : RetransmitScan} {r : InFlightEntry × RetransmitScan}
    (h : TickTurn mode now rto e acc r) :
    Lets (fun _ => mode = .unreliable) e r.1 acc.resolved.released r.2.resolved.released := by
  cases h with
  | kept | reoffered => exact .inl ⟨⟨rfl, rfl⟩, rfl⟩
  | probed => exact .inl ⟨⟨e.probed_seq now, e.probed_packetSlot now⟩, rfl⟩
  | timedOut _ _ hmode =>
    exact (resolveOutEntry_resolution mode false e acc.resolved).lets fun _ => hmode

theorem TickTurn.pays {now rto : ℕ} {acc : RetransmitScan} {r : InFlightEntry × RetransmitScan}
    (h : TickTurn mode now rto e acc r) :
    Pays e r.1 acc.resolved.unresolved r.2.resolved.unresolved acc.resolved.delta.resolved
      r.2.resolved.delta.resolved := by
  cases h with
  | kept | reoffered => exact ⟨fun h => ⟨h, rfl⟩, rfl, le_rfl, by simp⟩
  | probed =>
    unfold InFlightEntry.probed
    split <;> exact ⟨fun h => ⟨h, rfl⟩, rfl, le_rfl, by simp [CongestionDelta.resolved]⟩
  | timedOut => exact (resolveOutEntry_resolution mode false e acc.resolved).pays

end Turn

theorem resolveAcked_walks (flow : OutAssociation) (ack : AckEntry) (delta : CongestionDelta) :
    Walks (Acknowledged flow.mode ack) flow delta.resolved (flow.resolveAcked ack delta).1
      (flow.resolveAcked ack delta).2.resolved.delta.resolved
      (flow.resolveAcked ack delta).2.resolved.released :=
  Walks.of_scan _ _ (fun b : AckScan => b.resolved.released) (fun b => b.resolved.unresolved)
    (fun b => b.resolved.delta.resolved) (fun e b => (ackCell_ackTurn flow.mode ack e b).lets)
    (fun e b => (ackCell_ackTurn flow.mode ack e b).pays) flow
    ⟨⟨flow.unresolved, delta, []⟩, none, none⟩ rfl rfl

theorem noteSample_resolved (sample : Option (ℕ × ℕ × Bool)) (now ackDelay : ℕ)
    (delta : CongestionDelta) : (noteSample sample now ackDelay delta).resolved = delta.resolved := by
  unfold noteSample
  split
  · rfl
  · split <;> rfl

theorem judgeLoss_walks (flow : OutAssociation) (ok : ℕ → Prop) (largestAcked : Option ℕ)
    (now lossDelay : ℕ) (delta : CongestionDelta) :
    Walks ok flow delta.resolved (flow.judgeLoss largestAcked now lossDelay delta).1
      (flow.judgeLoss largestAcked now lossDelay delta).2.resolved [] := by
  cases largestAcked with
  | none => exact Walks.refl flow ok _
  | some n =>
    have hclock := Walks.of_ring flow { flow with lastResolvedMicros := now } ok delta.resolved
      ⟨rfl, rfl, rfl, rfl, rfl⟩ rfl rfl
    rw [judgeLoss, declareLostBelow]
    split
    · exact hclock
    · have hkeeps := fun e b => (lostCell_lossTurn n now lossDelay e b).keeps flow.unresolved
      exact hclock.trans (Walks.of_scan ok _ (fun _ => []) (fun _ => flow.unresolved)
        CongestionDelta.resolved (fun e b => .inl ⟨(hkeeps e b).1, rfl⟩)
        (fun e b => (hkeeps e b).2) _ delta rfl rfl)

theorem releaseAckedRun_walks (remoteRecvNext steps : ℕ) (flow : OutAssociation) (paid : ℕ × ℕ) :
    Walks (· < remoteRecvNext) flow paid (releaseAckedRun remoteRecvNext steps flow).1 paid
      (releaseAckedRun remoteRecvNext steps flow).2 := by
  induction steps generalizing flow with
  | zero => exact Walks.refl flow _ paid
  | succ steps ih =>
    rw [releaseAckedRun]
    dsimp only
    split_ifs with hloop hseq hacked
    · -- the acknowledged copy at the base goes, and the run continues above it
      have hbase : Walks (· < remoteRecvNext) flow paid flow.releaseBase paid
          (flow.inFlight (slot flow.inflightCap flow.ackBase)).packetSlot.toList := by
        refine Walks.of_put ?_ rfl ?_ ?_ ?_ ?_ paid
        · exact ⟨rfl, rfl, rfl, rfl, rfl⟩
        · exact .inr ⟨⟨⟨rfl, rfl⟩, by rw [hseq]; exact hloop.2⟩, rfl⟩
        · exact fun h => absurd rfl h
        · simp [InFlightEntry.charge, InFlightEntry.free, hacked]
        · rfl
      exact hbase.trans (ih flow.releaseBase)
    · exact Walks.refl flow _ paid
    · have hskip := Walks.of_ring flow { flow with ackBase := succSeq flow.ackBase }
        (· < remoteRecvNext) paid ⟨rfl, rfl, rfl, rfl, rfl⟩ rfl rfl
      exact hskip.trans (ih { flow with ackBase := succSeq flow.ackBase })
    · exact Walks.refl flow _ paid

theorem applyAck_walks (timers : FlowTimers) (rtt : RttEstimate) (flow : OutAssociation)
    (ack : AckEntry) (now : ℕ) (delta : CongestionDelta) :
    Walks (Acknowledged flow.mode ack) flow delta.resolved
      (flow.applyAck timers rtt ack now delta).1
      (flow.applyAck timers rtt ack now delta).2.1.resolved
      (flow.applyAck timers rtt ack now delta).2.2 := by
  rw [applyAck]
  split
  · have hresolved := resolveAcked_walks flow ack delta
    rw [← noteSample_resolved (flow.resolveAcked ack delta).2.sample now ack.ackDelay
      (flow.resolveAcked ack delta).2.resolved.delta] at hresolved
    exact hresolved.trans ((judgeLoss_walks _ _ (flow.resolveAcked ack delta).2.largestAcked now
      (rtt.lossDelayMicros timers.retryIntervalMicros) _).trans
        ((releaseAckedRun_walks ack.recvNext _ _ _).mono fun s hs => Or.inl hs))
  · exact Walks.refl flow _ _

/-! ## Retransmission and refunds -/

theorem retransmitInflight_walks (timers : FlowTimers) (flow : OutAssociation)
    (peer : PeerBudget) (now : ℕ) (delta : CongestionDelta) :
    Walks (fun _ => flow.mode = .unreliable) flow delta.resolved
      (flow.retransmitInflight timers peer now delta).flow
      (flow.retransmitInflight timers peer now delta).delta.resolved
      (flow.retransmitInflight timers peer now delta).released := by
  rw [retransmitInflight]
  split
  · exact Walks.refl flow _ _
  · exact Walks.of_scan _ _ (fun b : RetransmitScan => b.resolved.released)
      (fun b => b.resolved.unresolved) (fun b => b.resolved.delta.resolved)
      (fun e b => (retransmitCell_tickTurn timers flow.mode now _ e b).lets)
      (fun e b => (retransmitCell_tickTurn timers flow.mode now _ e b).pays) flow
      ⟨⟨flow.unresolved, delta, []⟩, peer, []⟩ rfl rfl

theorem refundResendAttempts_walks (seqs : List ℕ) (flow : OutAssociation) (ok : ℕ → Prop)
    (paid : ℕ × ℕ) : Walks ok flow paid (flow.refundResendAttempts seqs) paid [] := by
  induction seqs generalizing flow with
  | nil => exact Walks.refl flow ok paid
  | cons seq seqs ih =>
    have hone : Walks ok flow paid (flow.refundOne seq) paid [] := by
      unfold refundOne
      dsimp only
      split
      · exact Walks.refl flow ok paid
      · refine Walks.of_put ?_ rfl ?_ ?_ ?_ ?_ paid
        · exact ⟨rfl, rfl, rfl, rfl, rfl⟩
        · exact .inl ⟨⟨rfl, rfl⟩, rfl⟩
        · exact fun h => ⟨h, rfl⟩
        · rfl
        · rfl
    exact hone.trans (ih (flow.refundOne seq))

theorem retransmitInflight_refund_walks (timers : FlowTimers) (flow : OutAssociation)
    (peer : PeerBudget) (now : ℕ) (delta : CongestionDelta) (seqs : List ℕ) :
    let r := flow.retransmitInflight timers peer now delta
    Walks (fun _ => flow.mode = .unreliable) flow delta.resolved (r.flow.refundResendAttempts seqs)
      r.delta.resolved r.released := by
  have hboth := (flow.retransmitInflight_walks timers peer now delta).trans
    (refundResendAttempts_walks seqs _ _ _)
  rwa [List.append_nil] at hboth

end OutAssociation

end BcpFlux.Flow
