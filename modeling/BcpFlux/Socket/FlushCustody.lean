import BcpFlux.Socket.Custody

/-! # Flushing and appending

A pass through `PreProcessOut` leaves the open batches as they are, so a flush can seal
one batch after the other; flushes and appends keep what every resting place keeps.
-/

namespace BcpFlux.Socket
open Library Wire BcpFlux.Flow Peer

/-! ## What a pass through `PreProcessOut` leaves alone -/

/-- Same peer entry, and the same open batch on every association. -/
structure SameBatches (s s' : SendPath) : Prop where
  peer_eq : s'.peer = s.peer
  flows : ∀ flowId flow, s.flows flowId = some flow →
    ∃ assoc, s'.flows flowId = some { flow with assoc := assoc }

namespace SameBatches
variable {s s' s'' : SendPath}

theorem of_eq (hpeer : s'.peer = s.peer) (hflows : s'.flows = s.flows) : SameBatches s s' :=
  ⟨hpeer, fun _ flow hflow => ⟨flow.assoc, by rw [hflows]; exact hflow⟩⟩

theorem trans (h : SameBatches s s') (h' : SameBatches s' s'') : SameBatches s s'' := by
  refine ⟨h'.peer_eq.trans h.peer_eq, fun flowId flow hflow => ?_⟩
  obtain ⟨assoc, hassoc⟩ := h.flows flowId flow hflow
  obtain ⟨assoc', hassoc'⟩ := h'.flows flowId { flow with assoc := assoc } hassoc
  exact ⟨assoc', hassoc'⟩

end SameBatches

namespace SendPath
variable (s : SendPath) (p : Parcel) (requireAuth retained : Bool) (c : Choices)

theorem store_sameBatches (slot : ℕ) : SameBatches s (s.store retained slot p) := by
  rw [store]
  split <;> exact .of_eq rfl rfl

theorem park_sameBatches (pendingSlot : Bool) :
    SameBatches s (s.park p requireAuth retained pendingSlot).1 := by
  rw [park]
  split
  · exact .of_eq rfl rfl
  · split <;> exact .of_eq rfl rfl

theorem admitFlow_sameBatches (flying : Bool) :
    SameBatches s (s.admitFlow p flying c).2.2 :=
  ⟨s.admitFlow_peer p flying c, fun flowId _ hflow => s.admitFlow_batch p flying c flowId hflow⟩

theorem afterStamp_sameBatches (e : SendPeer) :
    SameBatches s (s.afterStamp e p requireAuth retained c).1 := by
  rw [afterStamp]
  split
  · dsimp only
    split
    · exact (s.store_sameBatches p true c.slot).trans (.of_eq rfl rfl)
    · exact .of_eq rfl rfl
  · split
    · exact s.store_sameBatches p true c.slot
    · exact s.park_sameBatches p requireAuth retained c.pendingSlot

theorem sendOnFlow_sameBatches (e : SendPeer) :
    SameBatches s (s.sendOnFlow e p requireAuth retained c).1 := by
  have hadmit := s.admitFlow_sameBatches p c e.established
  rw [sendOnFlow]
  split
  · exact .of_eq rfl rfl
  · dsimp only
    split
    · exact hadmit.trans (afterStamp_sameBatches _ _ _ _ _ _)
    · exact hadmit.trans (store_sameBatches _ _ _ _)
    · exact hadmit
    · exact hadmit
    · exact hadmit

theorem preProcessKnown_sameBatches (e : SendPeer) :
    SameBatches s (s.preProcessKnown e p requireAuth retained c).1 := by
  rw [preProcessKnown]
  split
  · exact .of_eq rfl rfl
  · split
    · split
      · exact .of_eq rfl rfl
      · exact s.park_sameBatches p requireAuth _ c.pendingSlot
    · split
      · exact .of_eq rfl rfl
      · split
        · exact s.sendOnFlow_sameBatches p requireAuth retained c e
        · exact s.afterStamp_sameBatches p requireAuth false c e

theorem preProcessOut_sameBatches (h : s.peer.isSome = true) :
    SameBatches s (s.preProcessOut p requireAuth retained c).1 := by
  obtain ⟨e, he⟩ := Option.isSome_iff_exists.mp h
  rw [preProcessOut]
  rw [he]
  exact s.preProcessKnown_sameBatches p requireAuth retained c e

/-! ## Flushing -/

theorem finishBatchOf_peer (flowId size : ℕ) (sent : Bool) :
    (s.finishBatchOf flowId size sent).peer = s.peer := by
  rw [finishBatchOf]
  split <;> rfl

theorem finishBatchOf_flow {flowId : ℕ} {flow : SendFlow} (hflow : s.flows flowId = some flow)
    (size : ℕ) (sent : Bool) :
    (s.finishBatchOf flowId size sent).flows flowId =
      some { flow with batch := flow.batch.finishBatch size sent } := by
  rw [finishBatchOf]
  rw [hflow]
  exact Function.update_self _ _ _

theorem sealOneBatch_cases (flowId : ℕ) :
    ((s.sealOneBatch flowId c).1 = s ∧ (s.sealOneBatch flowId c).2.1 = none ∧
      ((s.sealOneBatch flowId c).2.2 = .ok → ∀ flow, s.flows flowId = some flow →
        flow.batch.buffer ≠ [] → s.peer.isSome = true →
        flow.batch.inFlight = true ∨ maxWirePacketSize < flow.batch.buffer.length)) ∨
    ∃ flow, s.flows flowId = some flow ∧ flow.batch.buffer ≠ [] ∧ s.peer.isSome = true ∧
      (s.pool (retains flow) c.slot).isSome = false ∧
      let taken := s.setFlow flowId { flow with batch := { flow.batch with inFlight := true } }
      let r := taken.preProcessOut ⟨flow.batch.buffer, flow.carries⟩ false (retains flow) c
      (s.sealOneBatch flowId c = (r.1, some flow.batch.buffer.length, r.2.2) ∨
        s.sealOneBatch flowId c =
          (r.1.finishBatchOf flowId flow.batch.buffer.length (decide (r.2.2 = .ok)), none,
            r.2.2)) := by
  rw [sealOneBatch]
  split
  · next hnone =>
    refine .inl ⟨rfl, rfl, fun _ flow hflow => ?_⟩
    rw [hnone] at hflow
    cases hflow
  · next flow hflow =>
    split
    · next hempty =>
      refine .inl ⟨rfl, rfl, fun _ flow' hflow' hopen => ?_⟩
      rw [hflow] at hflow'
      cases hflow'
      exact absurd (by simpa [OpenBatch.peekBatch] using hempty) hopen
    · next hopen =>
      split
      · exact .inl ⟨rfl, rfl, fun hok => by cases hok⟩
      · next hfree =>
        split
        · next hgone =>
          refine .inl ⟨rfl, rfl, fun _ _ _ _ hpeer => ?_⟩
          rw [Option.isNone_iff_eq_none.mp hgone] at hpeer
          cases hpeer
        · next hpeer =>
          rw [OpenBatch.takeBatch]
          split
          · next htake =>
            refine .inl ⟨rfl, rfl, fun _ flow' hflow' hopen' _ => ?_⟩
            rw [hflow] at hflow'
            cases hflow'
            split at htake
            · cases htake
            · next hstuck =>
              simp only [hopen', ne_eq, not_false_eq_true, true_and, not_and_or, not_le,
                Bool.not_eq_false] at hstuck
              exact hstuck.symm
          · next bytes batch htake =>
            split at htake
            · cases htake
              refine .inr ⟨flow, hflow, by simpa [OpenBatch.peekBatch] using hopen,
                Option.isSome_iff_ne_none.mpr (by simpa using hpeer), by simpa using hfree, ?_⟩
              dsimp only
              split
              · exact .inl rfl
              · exact .inr rfl
            · cases htake

end SendPath

/-! ## What flushes and appends keep -/

section Batches
variable {A : OpenBatch → List Message → Prop} {B : Parcel → Prop} {Q : Bool → Parcel → Prop}
  {D : Departure → Prop} {s : SendPath}

theorem finishBatch_cases (batch : OpenBatch) (size : ℕ) (sent : Bool) :
    batch.finishBatch size sent = .empty ∨
      batch.finishBatch size sent = { batch with inFlight := false } := by
  rw [OpenBatch.finishBatch]
  split
  · exact .inl rfl
  · exact .inr rfl

namespace Keeps

theorem finishBatchOf (h : Keeps A B Q D s) {peer : Option SendPeer}
    (rules : CustodyRules A B Q D peer) (flowId size : ℕ) (sent : Bool) :
    Keeps A B Q D (s.finishBatchOf flowId size sent) := by
  rw [SendPath.finishBatchOf]
  split
  · exact h
  · next flow hflow =>
    apply h.setFlow
    intro hopen
    rcases finishBatch_cases flow.batch size sent with heq | heq
    · rw [heq] at hopen
      exact absurd rfl hopen
    · rw [heq] at hopen ⊢
      exact rules.flight _ _ _ (h.batches flowId flow hflow hopen)

theorem sealOneBatch (h : Keeps A B Q D s) (rules : CustodyRules A B Q D s.peer) (flowId : ℕ)
    (c : Choices) : Keeps A B Q D (s.sealOneBatch flowId c).1 := by
  rcases s.sealOneBatch_cases c flowId with ⟨heq, -⟩ | ⟨flow, hflow, hopen, hpeer, -, hcases⟩
  · rwa [heq]
  · have hA := h.batches flowId flow hflow hopen
    have hB := rules.body _ _ hopen hA
    have htaken : Keeps A B Q D (s.setFlow flowId
        { flow with batch := { flow.batch with inFlight := true } }) :=
      h.setFlow flowId fun _ => rules.flight _ _ _ hA
    have hout : Keeps A B Q D ((s.setFlow flowId
        { flow with batch := { flow.batch with inFlight := true } }).preProcessOut
          ⟨flow.batch.buffer, flow.carries⟩ false (SendPath.retains flow) c).1 :=
      htaken.preProcessOut rules (fun _ _ _ _ => hB) (fun _ _ => hB)
        (fun hdown => rules.park hdown _ hB false)
    rcases hcases with heq | heq
    · rw [heq]
      exact hout
    · rw [heq]
      exact hout.finishBatchOf rules _ _ _

theorem flushOneBatch (h : Keeps A B Q D s) (rules : CustodyRules A B Q D s.peer) (flowId : ℕ)
    (c : Choices) (left : Bool) : Keeps A B Q D (s.flushOneBatch flowId c left).1 := by
  have hsealed := h.sealOneBatch rules flowId c
  unfold SendPath.flushOneBatch
  dsimp only
  split
  · exact hsealed
  · exact hsealed.finishBatchOf rules _ _ _

theorem goAround (h : Keeps A B Q D s) (rules : CustodyRules A B Q D s.peer) (flowId : ℕ)
    (c : Choices) (left : Bool) : Keeps A B Q D (s.goAround flowId c left).1 := by
  unfold SendPath.goAround SendPath.flushFlowOf
  split
  · exact h
  · exact h.flushOneBatch rules flowId c left

theorem appendTo (h : Keeps A B Q D s) (flowId : ℕ) {p : Parcel}
    (happend : ∀ flow, s.flows flowId = some flow →
      (flow.batch.appendToBatch p.bytes maxWirePacketSize).1 = .appended →
      A (flow.batch.appendToBatch p.bytes maxWirePacketSize).2
        (SendPath.batched flow ++ p.carries)) :
    Keeps A B Q D (s.appendTo flowId p).1 := by
  rw [SendPath.appendTo]
  split
  · exact h
  · next flow hflow =>
    dsimp only
    split
    · next happ => exact h.setFlow flowId fun _ => happend flow hflow happ
    · exact h

end Keeps

end Batches

end BcpFlux.Socket
