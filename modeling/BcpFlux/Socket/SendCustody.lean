import BcpFlux.Socket.FlushCustody

/-! # Sends and whole steps

What a send asks of the packet it is handed, and that every step of the send path keeps
what every resting place keeps.
-/

namespace BcpFlux.Socket
open Library Wire BcpFlux.Flow Peer

/-! ## Sends -/

namespace SendPath
variable (s : SendPath)

theorem sealOneBatch_peer (flowId : ℕ) (c : Choices) :
    (s.sealOneBatch flowId c).1.peer = s.peer := by
  rcases s.sealOneBatch_cases c flowId with ⟨heq, -⟩ | ⟨flow, hflow, hopen, hpeer, -, hcases⟩
  · rw [heq]
  · have hout := (s.setFlow flowId
      { flow with batch := { flow.batch with inFlight := true } }).preProcessOut_sameBatches
        ⟨flow.batch.buffer, flow.carries⟩ false (retains flow) c hpeer
    rcases hcases with heq | heq
    · rw [heq]
      exact hout.peer_eq
    · rw [heq]
      exact (finishBatchOf_peer _ _ _ _).trans hout.peer_eq

theorem flushOneBatch_peer (flowId : ℕ) (c : Choices) (left : Bool) :
    (s.flushOneBatch flowId c left).1.peer = s.peer := by
  unfold flushOneBatch
  dsimp only
  split
  · exact s.sealOneBatch_peer flowId c
  · rw [finishBatchOf_peer]
    exact s.sealOneBatch_peer flowId c

theorem flushOneBatch_ok {flowId : ℕ} {c : Choices} {left : Bool} {flow : SendFlow}
    (hflow : s.flows flowId = some flow) (hok : (s.flushOneBatch flowId c left).2 = .ok) :
    ∃ flow', (s.flushOneBatch flowId c left).1.flows flowId = some flow' ∧
      (flow'.batch = .empty ∨ flow'.batch = flow.batch ∧
        (flow.batch.buffer ≠ [] → s.peer.isSome = true →
          flow.batch.inFlight = true ∨ maxWirePacketSize < flow.batch.buffer.length)) := by
  unfold flushOneBatch at hok ⊢
  dsimp only at hok ⊢
  rcases s.sealOneBatch_cases c flowId with
    ⟨heq, hnone, hstuck⟩ | ⟨flow', hflow', hopen, hpeer, -, hcases⟩
  · rw [hnone] at hok ⊢
    exact ⟨flow, by rw [heq]; exact hflow, .inr ⟨rfl, hstuck hok flow hflow⟩⟩
  · rw [hflow] at hflow'
    cases hflow'
    have hout := (s.setFlow flowId
      { flow with batch := { flow.batch with inFlight := true } }).preProcessOut_sameBatches
        ⟨flow.batch.buffer, flow.carries⟩ false (retains flow) c hpeer
    obtain ⟨assoc, hassoc⟩ := hout.flows flowId _ (Function.update_self _ _ _)
    rcases hcases with heq | heq
    · rw [heq] at hok ⊢
      cases left with
      | false => simp at hok
      | true => exact ⟨_, finishBatchOf_flow _ hassoc _ _, .inl (by simp [OpenBatch.finishBatch])⟩
    · rw [heq] at hok ⊢
      rw [hok]
      exact ⟨_, finishBatchOf_flow _ hassoc _ _, .inl (by simp [OpenBatch.finishBatch])⟩

theorem appendTo_peer (flowId : ℕ) (p : Parcel) : (s.appendTo flowId p).1.peer = s.peer := by
  rw [appendTo]
  split
  · rfl
  · dsimp only
    split <;> rfl

theorem joinBatch_peer (flowId : ℕ) (p : Parcel) (c : Choices) (left : Bool) :
    (s.joinBatch flowId p c left).1.peer = s.peer := by
  rw [joinBatch]
  dsimp only
  split
  · split
    · exact s.flushOneBatch_peer flowId c left
    · rw [appendTo_peer]
      exact s.flushOneBatch_peer flowId c left
  · exact s.appendTo_peer flowId p

theorem goAround_peer (flowId : ℕ) (c : Choices) (left : Bool) :
    (s.goAround flowId c left).1.peer = s.peer := by
  unfold goAround flushFlowOf
  split
  · rfl
  · exact s.flushOneBatch_peer flowId c left

theorem offerToBatch_peer (p : Parcel) (requireAuth : Bool) (c : Choices) (left : Bool) :
    (s.offerToBatch p requireAuth c left).1.peer = s.peer := by
  rw [offerToBatch]
  split
  · rfl
  · split
    · exact s.goAround_peer _ c left
    · split
      · rfl
      · split
        · exact s.goAround_peer _ c left
        · exact s.joinBatch_peer _ p c left

theorem offerTarget_some {p : Parcel} {requireAuth : Bool} {flow : SendFlow}
    (h : s.offerTarget p requireAuth = some flow) :
    s.flows p.bytes.flowId = some flow ∧ ∃ e, s.peer = some e ∧ e.established = true ∧
      (requireAuth = true → e.authenticated = true) := by
  rw [offerTarget] at h
  split at h
  · cases h
  · next e he =>
    split at h
    · cases h
    · next hcheck =>
      simp only [Bool.or_eq_true, Bool.not_eq_true', Bool.and_eq_true, not_or, not_and,
        Bool.not_eq_false] at hcheck
      exact ⟨h, e, he, hcheck.1, hcheck.2⟩

end SendPath

section Sends
variable {A : OpenBatch → List Message → Prop} {B : Parcel → Prop} {Q : Bool → Parcel → Prop}
  {D : Departure → Prop} {s : SendPath}
variable {p : Parcel} {requireAuth retained left : Bool}

/-- The packet may open a batch of its own. -/
def MayOpen (A : OpenBatch → List Message → Prop) (p : Parcel) : Prop :=
  ∀ batch : OpenBatch, batch.buffer = [] →
    (batch.appendToBatch p.bytes maxWirePacketSize).1 = .appended →
    A (batch.appendToBatch p.bytes maxWirePacketSize).2 p.carries

/-- The packet may join the batch it would be appended to. -/
def MayJoin (A : OpenBatch → List Message → Prop) (s : SendPath) (p : Parcel)
    (requireAuth : Bool) (c : Choices) : Prop :=
  p.bytes.isSecure = true → isHandFramed p.bytes = false → ∀ flow, s.offerTarget p requireAuth = some flow →
    SendPath.wouldAdmit flow.assoc c.budget p.bytes.length = true → flow.batch.buffer ≠ [] →
    (flow.batch.appendToBatch p.bytes maxWirePacketSize).1 = .appended →
    A (flow.batch.appendToBatch p.bytes maxWirePacketSize).2 (flow.carries ++ p.carries)

namespace Keeps

theorem joinBatch (h : Keeps A B Q D s) (rules : CustodyRules A B Q D s.peer) {flow : SendFlow}
    (hflow : s.flows p.bytes.flowId = some flow) (hopen : MayOpen A p)
    (hjoin : flow.batch.buffer ≠ [] →
      (flow.batch.appendToBatch p.bytes maxWirePacketSize).1 = .appended →
      A (flow.batch.appendToBatch p.bytes maxWirePacketSize).2 (flow.carries ++ p.carries))
    (c : Choices) (left : Bool) :
    Keeps A B Q D (s.joinBatch p.bytes.flowId p c left).1 := by
  rw [SendPath.joinBatch]
  dsimp only
  split
  · next hsealed =>
    have hfirst : (flow.batch.appendToBatch p.bytes maxWirePacketSize).1 = .sealed := by
      simpa [SendPath.appendTo, hflow] using hsealed
    split
    · exact h.flushOneBatch rules _ c left
    · next hok =>
      apply (h.flushOneBatch rules _ c left).appendTo
      intro flow' hflow' happ
      obtain ⟨flow'', hflow'', hbatch⟩ := s.flushOneBatch_ok hflow (not_not.mp hok)
      rw [hflow''] at hflow'
      cases hflow'
      rcases hbatch with hempty | ⟨hsame, -⟩
      · have hnil : flow'.batch.buffer = [] := by
          rw [hempty]
          rfl
        rw [SendPath.batched, if_pos hnil]
        exact hopen _ hnil happ
      -- nothing was taken, so the second append meets the same full batch
      · rw [hsame, hfirst] at happ
        cases happ
  · apply h.appendTo
    intro flow' hflow' happ
    rw [hflow] at hflow'
    cases hflow'
    by_cases hnil : flow.batch.buffer = []
    · rw [SendPath.batched, if_pos hnil]
      exact hopen _ hnil happ
    · rw [SendPath.batched, if_neg hnil]
      exact hjoin hnil happ

theorem offerToBatch (h : Keeps A B Q D s) (rules : CustodyRules A B Q D s.peer)
    (hp : ∀ e, s.peer = some e → e.established = true →
      (requireAuth = true → e.authenticated = true) → p.bytes.isSecure = true → MayOpen A p)
    {c : Choices} (hjoin : MayJoin A s p requireAuth c) (left : Bool) :
    Keeps A B Q D (s.offerToBatch p requireAuth c left).1 := by
  rw [SendPath.offerToBatch]
  split
  · exact h
  · next hbits =>
    split
    · exact h.goAround rules _ c left
    · next hwhole =>
      split
      · exact h
      · next flow hflow =>
        split
        · exact h.goAround rules _ c left
        · next hadmit =>
          obtain ⟨hfound, e, he, hest, hauth⟩ := s.offerTarget_some hflow
          simp only [Bool.or_eq_true, Bool.not_eq_true', not_or, Bool.not_eq_false] at hbits
          exact h.joinBatch rules hfound (hp e he hest hauth hbits.2)
            (hjoin hbits.2 (by simpa using hwhole) flow hflow (by simpa using hadmit)) c left

theorem sendPacket (h : Keeps A B Q D s) (rules : CustodyRules A B Q D s.peer)
    {flush own : Choices}
    (hbatch : ∀ e, s.peer = some e → e.established = true →
      (requireAuth = true → e.authenticated = true) → p.bytes.isSecure = true → MayOpen A p)
    (hjoin : MayJoin A s p requireAuth flush)
    (hfly : ∀ e, s.peer = some e → e.established = true →
      (requireAuth = true → e.authenticated = true) → B p)
    (hheld : (∀ e, s.peer = some e → e.established = false) →
      (s.offerToBatch p requireAuth flush left).1.keepsBody p retained own = true → B p)
    (hpark : (∀ e, s.peer = some e → e.established = false) → Q requireAuth p) :
    Keeps A B Q D (s.sendPacket p requireAuth retained flush own left).1 := by
  have hoffer := h.offerToBatch rules hbatch hjoin left
  have hpeer := s.offerToBatch_peer p requireAuth flush left
  rw [SendPath.sendPacket]
  split
  · exact hoffer
  · apply hoffer.preProcessOut
    · rw [hpeer]
      exact rules
    · rw [hpeer]
      exact hfly
    · rw [hpeer]
      exact hheld
    · rw [hpeer]
      exact hpark

end Keeps

end Sends

/-! ## One step -/

section Step
variable {A : OpenBatch → List Message → Prop} {B : Parcel → Prop} {Q : Bool → Parcel → Prop}
  {D : Departure → Prop} {s : SendPath}

/-- What a send owes, by where its packet may come to rest. -/
structure MaySend (A : OpenBatch → List Message → Prop) (B : Parcel → Prop)
    (Q : Bool → Parcel → Prop) (s : SendPath) (p : Parcel) (requireAuth retained : Bool)
    (flush own : Choices) (left : Bool) : Prop where
  batch : ∀ e, s.peer = some e → e.established = true →
    (requireAuth = true → e.authenticated = true) → p.bytes.isSecure = true → MayOpen A p
  join : MayJoin A s p requireAuth flush
  fly : ∀ e, s.peer = some e → e.established = true →
    (requireAuth = true → e.authenticated = true) → B p
  held : (∀ e, s.peer = some e → e.established = false) →
    (s.offerToBatch p requireAuth flush left).1.keepsBody p retained own = true → B p
  park : (∀ e, s.peer = some e → e.established = false) → Q requireAuth p

/-- Every packet a step hands to the sender may be sent. -/
def StepMaySend (A : OpenBatch → List Message → Prop) (B : Parcel → Prop)
    (Q : Bool → Parcel → Prop) (s : SendPath) : SendEvent → Prop
  | .send m flush own left => ∀ bytes, buildPacket m.level m.tagged m.target m.content = some bytes →
    MaySend A B Q s ⟨bytes, [m.message]⟩ m.secured m.retained flush own left
  | .sendDetached flush own left => ∀ pp authenticated rest,
    s.detached = (pp, authenticated) :: rest →
    (pp.requireAuth = true → authenticated = true) → Q pp.requireAuth pp.packet →
    MaySend A B Q { s with detached := rest } pp.packet pp.requireAuth pp.keepsBodyForResend
      flush own left
  | _ => True

namespace Keeps

theorem releaseHeld (h : Keeps A B Q D s) (flow : OutAssociation) :
    Keeps A B Q D (s.releaseHeld flow) := by
  rw [SendPath.releaseHeld]
  split
  · exact h.releaseSendPool _
  · exact h.releaseStaging _

theorem failFlow (h : Keeps A B Q D s) (flowId : ℕ) : Keeps A B Q D (s.failFlow flowId) := by
  rw [SendPath.failFlow]
  split
  · exact h
  · next flow hflow =>
    split
    · exact h
    · exact (h.releaseHeld flow.assoc).setFlow flowId fun hopen => h.batches flowId flow hflow hopen

theorem closeFlow (h : Keeps A B Q D s) (flowId : ℕ) : Keeps A B Q D (s.closeFlow flowId) := by
  rw [SendPath.closeFlow]
  split
  · exact h
  · next flow hflow =>
    have hrel := h.releaseHeld flow.assoc
    refine ⟨fun id flow' heq hopen => ?_, hrel.staged, hrel.waiting, hrel.parked, hrel.detached,
      hrel.departed⟩
    simp only [Function.update_apply] at heq
    split at heq
    · cases heq
    · exact h.batches id flow' heq hopen

theorem retransmit (timers : FlowTimers) (h : Keeps A B Q D s)
    (rules : CustodyRules A B Q D s.peer) (flowId : ℕ) (left : ℕ → Bool) (budget : PeerBudget)
    (now : ℕ) : Keeps A B Q D (s.retransmit timers flowId left budget now) := by
  rw [SendPath.retransmit]
  split
  · next e flow he hflow =>
    split
    · next hlive =>
      dsimp only
      split
      · exact h.failFlow flowId
      · have hset : ∀ released assoc, Keeps A B Q D
            ((s.releaseStaging released).setFlow flowId { flow with assoc := assoc }) :=
          fun released assoc => (h.releaseStaging released).setFlow flowId
            fun hopen => h.batches flowId flow hflow hopen
        refine ⟨(hset [] _).batches, (hset _ flow.assoc).staged, h.waiting, h.parked, h.detached,
          fun d hd => ?_⟩
        rcases List.mem_append.mp hd with hd | hd
        · exact h.departed d hd
        · obtain ⟨r, -, hr⟩ := List.mem_filterMap.mp hd
          obtain ⟨p, hp, rfl⟩ := Option.map_eq_some_iff.mp hr
          exact rules.fly e he hlive.1 p (h.staged _ p hp)
    · exact h
  · exact h

theorem drainWaiting (h : Keeps A B Q D s) (rules : CustodyRules A B Q D s.peer)
    (flowId epoch slot : ℕ) (left : Bool) (budget : PeerBudget) (now : ℕ) :
    Keeps A B Q D (s.drainWaiting flowId epoch slot left budget now) := by
  rw [SendPath.drainWaiting]
  split
  · next e flow he hflow =>
    split
    · next hest =>
      split
      · exact h
      · next p hp =>
        have hB : B (p.stamp flow.assoc) := by
          apply rules.stamp
          rw [SendPath.pool] at hp
          split at hp
          · exact h.staged slot p hp
          · exact h.waiting slot p hp
        dsimp only
        have hset : Keeps A B Q D (s.setFlow flowId
            { flow with assoc := (flow.assoc.claimWaiting budget epoch slot now).2.1 }) :=
          h.setFlow flowId fun hopen => h.batches flowId flow hflow hopen
        split
        · rw [SendPath.leaveWaiting]
          split
          · exact (hset.releaseSendPool [slot]).depart (rules.flyEncrypted e he hest _ hB)
          · split
            · exact (hset.store true slot hB).depart (rules.fly e he hest _ hB)
            · exact hset.store true slot hB
        · exact hset
    · exact h
  · exact h

theorem acknowledge (timers : FlowTimers) (h : Keeps A B Q D s) (flowId : ℕ) (ack : AckEntry)
    (rtt : RttEstimate) (now : ℕ) : Keeps A B Q D (s.acknowledge timers flowId ack rtt now) := by
  rw [SendPath.acknowledge]
  split
  · exact h
  · next flow hflow =>
    exact (h.releaseStaging _).setFlow flowId fun hopen => h.batches flowId flow hflow hopen

theorem detachPending (h : Keeps A B Q D s) : Keeps A B Q D s.detachPending := by
  rw [SendPath.detachPending]
  split
  · exact h
  · refine ⟨h.batches, h.staged, h.waiting, fun pp hpp => h.parked pp (List.mem_of_mem_drop hpp),
      fun x hx => ?_, h.departed⟩
    rcases List.mem_append.mp hx with hx | hx
    · exact h.detached x hx
    · obtain ⟨pp, hpp, rfl⟩ := List.mem_map.mp hx
      exact h.parked pp (List.mem_of_mem_take hpp)

theorem sendDetached (h : Keeps A B Q D s) (rules : CustodyRules A B Q D s.peer)
    {flush own : Choices} {left : Bool}
    (hsend : StepMaySend A B Q s (.sendDetached flush own left)) :
    Keeps A B Q D (s.sendDetached flush own left) := by
  rw [SendPath.sendDetached]
  split
  · exact h
  · next pp authenticated rest hdetached =>
    have hmem : (pp, authenticated) ∈ s.detached := by
      rw [hdetached]
      exact List.mem_cons_self
    have hrest : Keeps A B Q D { s with detached := rest } := by
      refine ⟨h.batches, h.staged, h.waiting, h.parked, fun x hx => h.detached x ?_, h.departed⟩
      rw [hdetached]
      exact List.mem_cons_of_mem _ hx
    dsimp only
    split
    · exact hrest
    · next hjudged =>
      split
      · exact hrest
      · have hok := hsend pp authenticated rest hdetached (by simpa using hjudged)
          (h.detached _ hmem)
        exact hrest.sendPacket rules hok.batch hok.join hok.fly hok.held hok.park

theorem submit (h : Keeps A B Q D s) (rules : CustodyRules A B Q D s.peer) {m : Submission}
    {flush own : Choices} {left : Bool} (hsend : StepMaySend A B Q s (.send m flush own left)) :
    Keeps A B Q D (s.submit m flush own left) := by
  rw [SendPath.submit]
  split
  · exact h
  · next bytes hbytes =>
    split
    · exact h
    · have hok := hsend bytes hbytes
      exact h.sendPacket rules hok.batch hok.join hok.fly hok.held hok.park

theorem settleBatch (h : Keeps A B Q D s) (rules : CustodyRules A B Q D s.peer) (left : Bool) :
    Keeps A B Q D (s.settleBatch left) := by
  rw [SendPath.settleBatch]
  split
  · exact h
  · next flowId size rest _ =>
    have hrest : Keeps A B Q D { s with unsettled := rest } :=
      ⟨h.batches, h.staged, h.waiting, h.parked, h.detached, h.departed⟩
    exact hrest.finishBatchOf rules flowId size left

theorem sealBatch (h : Keeps A B Q D s) (rules : CustodyRules A B Q D s.peer) (flowId : ℕ)
    (c : Choices) : Keeps A B Q D (s.sealBatch flowId c) := by
  have hsealed := h.sealOneBatch rules flowId c
  rw [SendPath.sealBatch]
  split
  · exact hsealed
  · exact ⟨hsealed.batches, hsealed.staged, hsealed.waiting, hsealed.parked, hsealed.detached,
      hsealed.departed⟩

/-- Every step keeps every place, as long as what it sends may be sent. -/
theorem step (timers : FlowTimers) (h : Keeps A B Q D s) (rules : CustodyRules A B Q D s.peer)
    {e : SendEvent} (hsend : StepMaySend A B Q s e) : Keeps A B Q D (s.step timers e) := by
  cases e with
  | send m flush own left => exact h.submit rules hsend
  | sealBatch flowId c => exact h.sealBatch rules flowId c
  | settleBatch left => exact h.settleBatch rules left
  | detachPending => exact h.detachPending
  | sendDetached flush own left => exact h.sendDetached rules hsend
  | retransmit flowId left budget now => exact h.retransmit timers rules flowId left budget now
  | drainWaiting flowId epoch slot left budget now =>
    exact h.drainWaiting rules flowId epoch slot left budget now
  | acknowledge flowId ack rtt now => exact h.acknowledge timers flowId ack rtt now
  | failFlow flowId => exact h.failFlow flowId
  | closeFlow flowId => exact h.closeFlow flowId
  | connect =>
    simp only [SendPath.step]
    split
    · exact h.setPeer _
    · exact h
  | complete trusted =>
    simp only [SendPath.step]
    split
    · exact h.setPeer _
    · exact h
  | validate => exact h.setPeer _
  | removePeer =>
    exact ⟨fun _ _ hflow => (by cases hflow), fun _ _ hp => (by cases hp),
      fun _ _ hp => (by cases hp), fun pp hpp => (by cases hpp), h.detached, h.departed⟩

end Keeps

theorem keeps_initial : Keeps A B Q D .initial where
  batches := fun _ _ hflow => by cases hflow
  staged := fun _ _ hp => by cases hp
  waiting := fun _ _ hp => by cases hp
  parked := fun _ hpp => by cases hpp
  detached := fun _ hx => by cases hx
  departed := fun _ hd => by cases hd

end Step

end BcpFlux.Socket
