import BcpFlux.Flow.NoLoss
import Mathlib.Algebra.BigOperators.Pi
import Mathlib.Algebra.Order.BigOperators.Group.Finset

/-! # What an association has charged to its peer

Every stamp charges the peer the bytes of a packet and one packet.  `owes` reads the
charges of an association off its ring: the cells taken and not acknowledged.
-/

namespace BcpFlux.Peer

def PeerBudget.charged (peer : PeerBudget) : ℕ × ℕ := (peer.bytesInFlight, peer.outstandingToPeer)

namespace PeerBudget

/-- What neither the pacing clock nor an admission that fails changes. -/
def SameCharge (peer' peer : PeerBudget) : Prop :=
  peer'.charged = peer.charged ∧ peer'.congestionBudget = peer.congestionBudget

theorem SameCharge.refl (peer : PeerBudget) : SameCharge peer peer := ⟨rfl, rfl⟩

theorem SameCharge.trans {peer peer' peer'' : PeerBudget} (h' : SameCharge peer'' peer')
    (h : SameCharge peer' peer) : SameCharge peer'' peer :=
  ⟨h'.1.trans h.1, h'.2.trans h.2⟩

theorem refillPacing_charge (peer : PeerBudget) (now : ℕ) :
    SameCharge (peer.refillPacing now) peer := by
  unfold refillPacing
  dsimp only
  split_ifs <;> exact ⟨rfl, rfl⟩

theorem pacingAllows_charge (peer : PeerBudget) (now wireSize : ℕ) :
    SameCharge (peer.pacingAllows now wireSize).1 peer := by
  unfold pacingAllows
  split
  · exact SameCharge.refl peer
  · exact refillPacing_charge peer now

end PeerBudget

end BcpFlux.Peer

namespace BcpFlux.Flow
open Library Peer

theorem Paced.charge {now : ℕ} {peer peer' : PeerBudget} (h : Paced now peer peer') :
    peer'.SameCharge peer := by
  cases h with
  | unasked => exact PeerBudget.SameCharge.refl peer
  | asked wireSize | spent wireSize => exact peer.pacingAllows_charge now wireSize

namespace OutAssociation

structure Weighed (flow : OutAssociation) : Prop where
  cap : IsPow2 flow.inflightCap
  seq : flow.nextSeq ≠ 0
  cell : ∀ i, (flow.inFlight i).seq ≠ 0 → 0 < (flow.inFlight i).wireSize
  queue : ∀ e ∈ flow.waiting, 0 < e.wireSize

variable {flow flow' : OutAssociation} {before after : ℕ × ℕ}

theorem Weighed.owes_le (h : flow.Weighed) : flow.owes.2 ≤ flow.owes.1 := by
  rw [owes, total, Prod.fst_sum, Prod.snd_sum]
  apply Finset.sum_le_sum
  intro i _
  rw [InFlightEntry.charge]
  split
  · next hcell => exact h.cell i hcell.1
  · exact Nat.le_refl 0

theorem Walks.weighed {ok : ℕ → Prop} {released : List ℕ}
    (h : Walks ok flow before flow' after released) (hweighed : flow.Weighed) : flow'.Weighed where
  cap := h.same.cap ▸ hweighed.cap
  seq := h.same.next ▸ hweighed.seq
  cell := by
    intro i hi
    obtain ⟨hseq, hsize⟩ := h.weight i hi
    rw [hsize]
    exact hweighed.cell i hseq
  queue := h.same.waiting ▸ hweighed.queue

/-! ## Resolution -/

section Turn
variable {mode : FlowMode} {e : InFlightEntry}

theorem Resolution.packets {acked : Bool} {acc : Resolved} {r : InFlightEntry × Resolved}
    (h : Resolution mode acked e acc r) (hsize : e.seq ≠ 0 → 0 < e.wireSize)
    (hacc : acc.delta.resolvedPackets ≤ acc.delta.resolvedBytes) :
    r.2.delta.resolvedPackets ≤ r.2.delta.resolvedBytes := by
  cases h with
  | idle => exact hacc
  | kept hopen _ _ hbytes hpackets | freed hopen _ _ hbytes hpackets =>
    rw [hbytes, hpackets]
    exact Nat.add_le_add hacc (hsize hopen.1)

end Turn

theorem retransmitInflight_peer (timers : FlowTimers) (flow : OutAssociation) (peer : PeerBudget)
    (now : ℕ) (delta : CongestionDelta) :
    (flow.retransmitInflight timers peer now delta).peer.SameCharge peer := by
  obtain ⟨-, -, acc, hacc, -, hpeer, -⟩ := flow.retransmitInflight_turns timers peer now delta
    (P := fun _ acc => acc.peer.SameCharge peer) (PeerBudget.SameCharge.refl peer) (by
      rintro i _ acc r hturn - hacc
      cases hturn with
      | kept _ hpeer | reoffered _ _ hpeer | probed _ _ hpeer => exact hpeer.charge.trans hacc
      | timedOut => exact hacc)
  rw [hpeer]
  exact hacc

theorem retransmitInflight_packets (timers : FlowTimers) (hweighed : flow.Weighed)
    (peer : PeerBudget) (now : ℕ)
    (hbytes : (flow.retransmitInflight timers peer now .zero).delta.resolvedBytes = 0) :
    (flow.retransmitInflight timers peer now .zero).delta.resolved = 0 := by
  obtain ⟨-, -, acc, hacc, hdelta, -⟩ := flow.retransmitInflight_turns timers peer now .zero
    (P := fun _ acc => acc.resolved.delta.resolvedPackets ≤ acc.resolved.delta.resolvedBytes)
    (Nat.le_refl 0) (by
      rintro i _ acc r hturn - hacc
      cases hturn with
      | kept | reoffered | probed => exact hacc
      | timedOut =>
        exact (resolveOutEntry_resolution _ false _ acc.resolved).packets (hweighed.cell i) hacc)
  rw [← hdelta, hbytes] at hacc
  exact Prod.ext hbytes (Nat.le_zero.mp hacc)

/-! ## Sending -/

/-- The peer has room for what its charges may still become: its budget fits the field, and
no packet is charged without bytes. -/
structure Roomy (peer : PeerBudget) : Prop where
  budget : peer.congestionBudget < 2 ^ 32
  packets : peer.outstandingToPeer ≤ peer.bytesInFlight

variable {peer : PeerBudget}

theorem Roomy.of_same {peer' : PeerBudget} (h : Roomy peer) (hsame : peer'.SameCharge peer) :
    Roomy peer' := by
  obtain ⟨hcharged, hbudget⟩ := hsame
  have hbytes : peer'.bytesInFlight = peer.bytesInFlight := congrArg Prod.fst hcharged
  have hpackets : peer'.outstandingToPeer = peer.outstandingToPeer := congrArg Prod.snd hcharged
  exact ⟨hbudget ▸ h.budget, by rw [hbytes, hpackets]; exact h.packets⟩

/-- An operation that charges the peer what it adds to the ring. -/
structure Spends (flow : OutAssociation) (peer : PeerBudget) (flow' : OutAssociation)
    (peer' : PeerBudget) : Prop where
  weighed : flow'.Weighed
  account : peer'.charged + flow.owes = peer.charged + flow'.owes
  budget : peer'.congestionBudget = peer.congestionBudget

theorem Spends.of_same {peer' : PeerBudget} (hweighed : flow'.Weighed)
    (howes : flow'.owes = flow.owes) (hsame : peer'.SameCharge peer) :
    flow.Spends peer flow' peer' :=
  ⟨hweighed, by rw [hsame.1, howes], hsame.2⟩

variable {wireSize : ℕ}

theorem canSend_budget {windowed : Bool}
    (h : flow.canSend peer wireSize windowed = true) :
    peer.bytesInFlight + wireSize ≤ peer.congestionBudget := by
  rw [canSend] at h
  split_ifs at h with hwindow hbudget
  exact Nat.le_of_not_lt hbudget

theorem stamp_owes (hcap : IsPow2 flow.inflightCap) (hseq : flow.nextSeq ≠ 0)
    (hcell : (flow.inFlight (slot flow.inflightCap flow.nextSeq)).seq = 0) (peer : PeerBudget)
    (packetSlot : Option ℕ) (wireSize : ℕ) (flying : Bool) (now : ℕ) :
    (flow.stamp peer packetSlot wireSize flying now).1.owes = flow.owes + (wireSize, 1) := by
  have hput := total_put InFlightEntry.charge flow.inFlight hcap flow.nextSeq
    (flow.stampedEntry peer packetSlot wireSize flying now)
  have hold : (flow.inFlight (slot flow.inflightCap flow.nextSeq)).charge = 0 := by
    simp [InFlightEntry.charge, hcell]
  have hnew : (flow.stampedEntry peer packetSlot wireSize flying now).charge = (wireSize, 1) := by
    simp [InFlightEntry.charge, stampedEntry, hseq]
  rw [hold, hnew, add_zero] at hput
  exact hput

theorem stamp_spends (hweighed : flow.Weighed) (hroomy : Roomy peer) (hsize : 0 < wireSize)
    (hbudget : peer.bytesInFlight + wireSize ≤ peer.congestionBudget)
    (hcell : (flow.inFlight (slot flow.inflightCap flow.nextSeq)).seq = 0)
    (packetSlot : Option ℕ) (flying : Bool) (now : ℕ) :
    flow.Spends peer (flow.stamp peer packetSlot wireSize flying now).1
      (flow.stamp peer packetSlot wireSize flying now).2 where
  weighed := by
    refine ⟨hweighed.cap, SenderSide.succSeq_ne_zero flow.nextSeq, ?_, hweighed.queue⟩
    intro i
    simp only [stamp, put_apply]
    split
    · exact fun _ => hsize
    · exact hweighed.cell i
  account := by
    have hroom := hroomy.budget
    have hpackets := hroomy.packets
    have hbytes : u32 (peer.bytesInFlight + wireSize) = peer.bytesInFlight + wireSize :=
      Nat.mod_eq_of_lt (by omega)
    have hcount : u32 (peer.outstandingToPeer + 1) = peer.outstandingToPeer + 1 :=
      Nat.mod_eq_of_lt (by omega)
    have hcharged : (flow.stamp peer packetSlot wireSize flying now).2.charged =
        peer.charged + (wireSize, 1) := Prod.ext hbytes hcount
    rw [hcharged, stamp_owes hweighed.cap hweighed.seq hcell]
    abel
  budget := rfl

theorem Weighed.of_waiting (h : flow.Weighed) {waiting : List WaitingEntry}
    (hqueue : ∀ e ∈ waiting, 0 < e.wireSize) :
    ({ flow with waiting := waiting } : OutAssociation).Weighed :=
  ⟨h.cap, h.seq, h.cell, hqueue⟩

theorem Weighed.enqueue (h : flow.Weighed) (hsize : 0 < wireSize)
    (packetSlot now : ℕ) : (flow.enqueueWaiting packetSlot wireSize now).Weighed := by
  apply h.of_waiting
  intro e he
  rcases List.mem_append.mp he with he | he
  · exact h.queue e he
  · rw [List.mem_singleton] at he
    rw [he]
    exact hsize

theorem Weighed.tail (h : flow.Weighed) {head : WaitingEntry} {rest : List WaitingEntry}
    (hwaiting : flow.waiting = head :: rest) :
    ({ flow with waiting := rest } : OutAssociation).Weighed :=
  h.of_waiting fun e he => h.queue e (hwaiting ▸ List.mem_cons_of_mem head he)

theorem stamp_paced_spends (hweighed : flow.Weighed) (hroomy : Roomy peer) (hsize : 0 < wireSize) {windowed : Bool}
    (hroom : flow.canSend peer wireSize windowed = true) (packetSlot : Option ℕ) (flying : Bool)
    (now : ℕ) :
    let r := flow.stamp (peer.pacingAllows now wireSize).1 packetSlot wireSize flying now
    flow.Spends peer r.1 r.2 := by
  have hsame := peer.pacingAllows_charge now wireSize
  have hbytes : (peer.pacingAllows now wireSize).1.bytesInFlight = peer.bytesInFlight :=
    congrArg Prod.fst hsame.1
  have hstamp := stamp_spends hweighed (hroomy.of_same hsame) hsize
    (by rw [hbytes, hsame.2]; exact canSend_budget hroom) (canSend_cell hroom) packetSlot flying now
  exact ⟨hstamp.weighed, by rw [← hsame.1]; exact hstamp.account, hstamp.budget.trans hsame.2⟩

theorem admitOut_spends (hweighed : flow.Weighed) (hroomy : Roomy peer) (hsize : 0 < wireSize) (packetSlot : ℕ) (flying : Bool) (now : ℕ) :
    flow.Spends peer (flow.admitOut peer packetSlot wireSize flying now).2.1
      (flow.admitOut peer packetSlot wireSize flying now).2.2.1 := by
  have hadmitted := flow.admitOut_admission peer packetSlot wireSize flying now
  generalize flow.admitOut peer packetSlot wireSize flying now = r at hadmitted ⊢
  cases hadmitted with
  | refused _ _ hpeer => exact Spends.of_same hweighed rfl hpeer.charge
  | stamped _ _ hroom => exact stamp_paced_spends hweighed hroomy hsize hroom _ flying now
  | queued _ hpeer => exact Spends.of_same (hweighed.enqueue hsize packetSlot now) rfl hpeer.charge
  | evicted _ hpeer _ _ _ _ _ hwaiting =>
    exact Spends.of_same ((hweighed.tail hwaiting).enqueue hsize packetSlot now) rfl hpeer.charge

theorem claimWaiting_spends (hweighed : flow.Weighed) (hroomy : Roomy peer)
    (candidateEpoch candidateSlot now : ℕ) :
    flow.Spends peer (flow.claimWaiting peer candidateEpoch candidateSlot now).2.1
      (flow.claimWaiting peer candidateEpoch candidateSlot now).2.2 := by
  have hclaim := flow.claimWaiting_claim peer candidateEpoch candidateSlot now
  generalize flow.claimWaiting peer candidateEpoch candidateSlot now = r at hclaim ⊢
  cases hclaim with
  | kept _ hpeer => exact Spends.of_same hweighed rfl hpeer.charge
  | stamped head rest hwaiting _ hroom =>
    have hsize : 0 < head.wireSize := hweighed.queue head (hwaiting ▸ List.mem_cons_self)
    have hstamp := stamp_paced_spends (hweighed.tail hwaiting) hroomy hsize hroom
      (if flow.mode = .unreliable then none else some candidateSlot) true now
    exact ⟨hstamp.weighed, hstamp.account, hstamp.budget⟩

/-! ## Creation and teardown -/

theorem owes_of_free (h : ∀ i, flow.inFlight i = .free) : flow.owes = 0 := by
  rw [owes, total]
  apply Finset.sum_eq_zero
  intro i _
  rw [h i]
  rfl

theorem owes_reset (oldEpoch : ℕ) (p : OutAssocParams) (now : ℕ) :
    (resetOutAssoc oldEpoch p now).owes = 0 :=
  owes_of_free fun _ => rfl

theorem weighed_reset (oldEpoch : ℕ) (p : OutAssocParams) (now : ℕ) :
    (resetOutAssoc oldEpoch p now).Weighed where
  cap := InAssociation.windowFor_isPow2 p.mode
  seq := Nat.one_ne_zero
  cell := fun _ h => absurd rfl h
  queue := fun _ h => by cases h

theorem owes_tearDown (flow : OutAssociation) (life : FlowLifecycle) :
    (flow.tearDown life).owes = 0 :=
  owes_of_free fun _ => rfl

theorem Weighed.tearDown (h : flow.Weighed) (life : FlowLifecycle) :
    (flow.tearDown life).Weighed where
  cap := h.cap
  seq := h.seq
  cell := fun _ h => absurd rfl h
  queue := fun _ h => by cases h

end OutAssociation

end BcpFlux.Flow
