import BcpFlux.Flow.Turns
import BcpFlux.Socket.Outgoing

/-! # What every resting place of a packet keeps

A packet on its way out rests in an open batch, in a pool slot an association holds,
or on the pending list, until it is sealed.  `Keeps` states one property for each
kind of place; the lemmas say that every call preserves it, under rules about
stamping, sealing and parking alone.
-/

namespace BcpFlux.Socket
open Library Wire BcpFlux.Flow Peer Function

/-- `A` of every open batch, `B` of every held body, `Q` of every parked packet with its
requirement, `D` of every departure. -/
structure Keeps (A : OpenBatch → List Message → Prop) (B : Parcel → Prop)
    (Q : Bool → Parcel → Prop) (D : Departure → Prop) (s : SendPath) : Prop where
  batches : ∀ flowId flow, s.flows flowId = some flow → flow.batch.buffer ≠ [] →
    A flow.batch flow.carries
  staged : ∀ slot p, s.staging slot = some p → B p
  waiting : ∀ slot p, s.sendPool slot = some p → B p
  parked : ∀ pp ∈ s.pending, Q pp.requireAuth pp.packet
  detached : ∀ x ∈ s.detached, Q x.1.requireAuth x.1.packet
  departed : ∀ d ∈ s.departed, D d

/-- How the properties hang together while the peer entry is as given. -/
structure CustodyRules (A : OpenBatch → List Message → Prop) (B : Parcel → Prop)
    (Q : Bool → Parcel → Prop) (D : Departure → Prop) (peer : Option SendPeer) : Prop where
  body : ∀ batch messages, batch.buffer ≠ [] → A batch messages → B ⟨batch.buffer, messages⟩
  flight : ∀ batch messages inFlight, A batch messages →
    A { batch with inFlight := inFlight } messages
  stamp : ∀ p flow, B p → B (p.stamp flow)
  stampParked : ∀ r p flow, Q r p → Q r (p.stamp flow)
  fly : ∀ e, peer = some e → e.established = true → ∀ p, B p →
    D ⟨some (sealKindOf p.bytes), p, e.authenticated⟩
  flyEncrypted : ∀ e, peer = some e → e.established = true → ∀ p, B p →
    D ⟨some .encrypted, p, e.authenticated⟩
  flyPlain : ∀ e, peer = some e → e.established = true → ∀ p, B p → p.bytes.isSecure = false →
    D ⟨none, p, e.authenticated⟩
  park : (∀ e, peer = some e → e.established = false) → ∀ p, B p → ∀ r, Q r p

section Custody
variable {A : OpenBatch → List Message → Prop} {B : Parcel → Prop} {Q : Bool → Parcel → Prop}
  {D : Departure → Prop} {s : SendPath}

/-- Registering the peer changes nothing: there is no session before and after. -/
theorem CustodyRules.blank (h : CustodyRules A B Q D none) :
    CustodyRules A B Q D (some .blank) where
  __ := h
  fly := by
    intro e he hest
    cases he
    cases hest
  flyEncrypted := by
    intro e he hest
    cases he
    cases hest
  flyPlain := by
    intro e he hest
    cases he
    cases hest
  park := fun _ => h.park (fun e he => by cases he)

namespace Keeps

/-! ## Primitive updates -/

theorem setPeer (h : Keeps A B Q D s) (peer : Option SendPeer) :
    Keeps A B Q D { s with peer := peer } :=
  ⟨h.batches, h.staged, h.waiting, h.parked, h.detached, h.departed⟩

theorem mono {A' : OpenBatch → List Message → Prop} {B' : Parcel → Prop} (h : Keeps A B Q D s)
    (hA : ∀ batch messages, A batch messages → A' batch messages) (hB : ∀ p, B p → B' p) :
    Keeps A' B' Q D s :=
  ⟨fun flowId flow hflow hopen => hA _ _ (h.batches flowId flow hflow hopen),
    fun slot p hp => hB p (h.staged slot p hp), fun slot p hp => hB p (h.waiting slot p hp),
    h.parked, h.detached, h.departed⟩

theorem setFlow (h : Keeps A B Q D s) (flowId : ℕ) {flow : SendFlow}
    (hflow : flow.batch.buffer ≠ [] → A flow.batch flow.carries) :
    Keeps A B Q D (s.setFlow flowId flow) := by
  refine ⟨fun id flow' heq hopen => ?_, h.staged, h.waiting, h.parked, h.detached, h.departed⟩
  simp only [SendPath.setFlow, update_apply] at heq
  split at heq
  · cases heq
    exact hflow hopen
  · exact h.batches id flow' heq hopen

theorem store (h : Keeps A B Q D s) (retained : Bool) (slot : ℕ) {p : Parcel} (hp : B p) :
    Keeps A B Q D (s.store retained slot p) := by
  rw [SendPath.store]
  split
  · refine ⟨h.batches, fun a p' heq => ?_, h.waiting, h.parked, h.detached, h.departed⟩
    simp only [update_apply] at heq
    split at heq
    · cases heq
      exact hp
    · exact h.staged a p' heq
  · refine ⟨h.batches, h.staged, fun a p' heq => ?_, h.parked, h.detached, h.departed⟩
    simp only [update_apply] at heq
    split at heq
    · cases heq
      exact hp
    · exact h.waiting a p' heq

theorem releaseStaging (h : Keeps A B Q D s) (slots : List ℕ) :
    Keeps A B Q D (s.releaseStaging slots) := by
  refine ⟨h.batches, fun a p heq => ?_, h.waiting, h.parked, h.detached, h.departed⟩
  simp only [SendPath.releaseStaging] at heq
  split at heq
  · cases heq
  · exact h.staged a p heq

theorem releaseSendPool (h : Keeps A B Q D s) (slots : List ℕ) :
    Keeps A B Q D (s.releaseSendPool slots) := by
  refine ⟨h.batches, h.staged, fun a p heq => ?_, h.parked, h.detached, h.departed⟩
  simp only [SendPath.releaseSendPool] at heq
  split at heq
  · cases heq
  · exact h.waiting a p heq

theorem depart (h : Keeps A B Q D s) {kind : Option SealKind} {p : Parcel} {authenticated : Bool}
    (hd : D ⟨kind, p, authenticated⟩) : Keeps A B Q D (s.depart kind p authenticated) := by
  refine ⟨h.batches, h.staged, h.waiting, h.parked, h.detached, fun d hmem => ?_⟩
  rcases List.mem_append.mp hmem with hmem | hmem
  · exact h.departed d hmem
  · rw [List.mem_singleton.mp hmem]
    exact hd

theorem park (h : Keeps A B Q D s) {p : Parcel} {requireAuth : Bool} (hp : Q requireAuth p)
    (retained pendingSlot : Bool) :
    Keeps A B Q D (s.park p requireAuth retained pendingSlot).1 := by
  rw [SendPath.park]
  split
  · exact h
  · split
    · exact h
    · refine ⟨h.batches, h.staged, h.waiting, fun pp hmem => ?_, h.detached, h.departed⟩
      rcases List.mem_append.mp hmem with hmem | hmem
      · exact h.parked pp hmem
      · rw [List.mem_singleton.mp hmem]
        exact hp

end Keeps

end Custody

/-! ## What an admission keeps -/

/-- The gate of `AdmitOut`: nothing waits ahead, there is room, and the clock allows it. -/
def gateOpen (flow : OutAssociation) (budget : PeerBudget) (wireSize now : ℕ) : Bool :=
  decide (flow.waiting = []) && flow.canSend budget wireSize (!decide (flow.mode = .unreliable)) &&
    (budget.pacingAllows now wireSize).2

/-- The association would hold the body of this packet itself: as its retransmit source when
the gate is open, in the waiting ring when it is not. -/
def SendPath.keepsBody (s : SendPath) (p : Parcel) (retained : Bool) (c : Choices) : Bool :=
  match s.findOrCreate p.bytes.flowId c with
  | none => false
  | some flow => decide (flow.assoc.life = .opened) &&
    if gateOpen flow.assoc c.budget p.bytes.length c.now then retained
    else decide (flow.assoc.waiting.length < flow.assoc.waitingCap) ||
      (decide (flow.assoc.mode = .unreliable) && decide (flow.assoc.waiting ≠ []))

theorem admitOut_verdict (flow : OutAssociation) (budget : PeerBudget) (slot wireSize : ℕ)
    (flying : Bool) (now : ℕ) :
    ((flow.admitOut budget slot wireSize flying now).1 = .sent →
      flow.life = .opened ∧ gateOpen flow budget wireSize now = true) ∧
    ((flow.admitOut budget slot wireSize flying now).1 = .queued →
      flow.life = .opened ∧ gateOpen flow budget wireSize now = false ∧
        (flow.waiting.length < flow.waitingCap ∨
          flow.mode = .unreliable ∧ flow.waiting ≠ [])) := by
  have hadmitted := flow.admitOut_admission budget slot wireSize flying now
  generalize flow.admitOut budget slot wireSize flying now = r at hadmitted ⊢
  cases hadmitted with
  | refused _ _ _ hsent hqueued => exact ⟨fun h => absurd h hsent, fun h => absurd h hqueued⟩
  | stamped hlife hwaiting hroom hclock =>
    exact ⟨fun _ => ⟨hlife, by rw [gateOpen, hroom, hclock, hwaiting]; rfl⟩, fun h => by cases h⟩
  | queued _ _ hlife hshut hroom =>
    exact ⟨fun h => (nomatch h), fun _ => ⟨hlife, hshut, .inl hroom⟩⟩
  | evicted _ _ hlife hshut hmode _ _ hwaiting =>
    exact ⟨fun h => (nomatch h), fun _ => ⟨hlife, hshut, .inr ⟨hmode, by simp [hwaiting]⟩⟩⟩

namespace SendPath

theorem admitFlow_keepsBody {s : SendPath} {p : Parcel} {flying retained : Bool} {c : Choices}
    (h : (s.admitFlow p flying c).1 = .sent ∧ retained = true ∨
      (s.admitFlow p flying c).1 = .queued) : s.keepsBody p retained c = true := by
  rw [admitFlow] at h
  rw [keepsBody]
  cases hfind : s.findOrCreate p.bytes.flowId c with
  | none =>
    rw [hfind] at h
    rcases h with ⟨h, -⟩ | h <;> cases h
  | some flow =>
    rw [hfind] at h
    obtain ⟨hsent, hqueued⟩ := admitOut_verdict flow.assoc c.budget c.slot p.bytes.length flying c.now
    rcases h with ⟨h, rfl⟩ | h
    · obtain ⟨hlife, hgate⟩ := hsent h
      simp [hlife, hgate]
    · obtain ⟨hlife, hgate, hroom⟩ := hqueued h
      simpa [hlife, hgate] using hroom

section
variable (s : SendPath) (p : Parcel) (flying : Bool) (c : Choices)

theorem admitFlow_batch (flowId : ℕ)
    {flow : SendFlow} (hflow : s.flows flowId = some flow) :
    ∃ assoc, (s.admitFlow p flying c).2.2.flows flowId = some { flow with assoc := assoc } := by
  rw [admitFlow]
  cases hfind : s.findOrCreate p.bytes.flowId c with
  | none => exact ⟨flow.assoc, hflow⟩
  | some found =>
    dsimp only [releaseSendPool, setFlow]
    by_cases hid : flowId = p.bytes.flowId
    · subst hid
      have hfound : found = flow := by
        rw [findOrCreate] at hfind
        split at hfind
        · cases hfind
        · rw [hflow] at hfind
          exact (Option.some.inj hfind).symm
      rw [update_self, hfound]
      exact ⟨_, rfl⟩
    · rw [update_of_ne hid]
      exact ⟨flow.assoc, hflow⟩

theorem admitFlow_stamp :
    (s.admitFlow p flying c).2.1 = p ∨ ∃ assoc, (s.admitFlow p flying c).2.1 = p.stamp assoc := by
  rw [admitFlow]
  split
  · exact .inl rfl
  · next flow _ =>
    dsimp only
    split
    · exact .inr ⟨flow.assoc, rfl⟩
    · exact .inl rfl

theorem admitFlow_peer :
    (s.admitFlow p flying c).2.2.peer = s.peer := by
  rw [admitFlow]
  split <;> rfl

end

end SendPath

/-! ## What every call keeps -/

section Calls
variable {A : OpenBatch → List Message → Prop} {B : Parcel → Prop} {Q : Bool → Parcel → Prop}
  {D : Departure → Prop} {s : SendPath}

namespace Keeps

theorem admitFlow (h : Keeps A B Q D s) (p : Parcel) (flying : Bool) (c : Choices) :
    Keeps A B Q D (s.admitFlow p flying c).2.2 := by
  rw [SendPath.admitFlow]
  cases hfind : s.findOrCreate p.bytes.flowId c with
  | none => exact h
  | some flow =>
    apply Keeps.releaseSendPool
    apply h.setFlow
    intro hopen
    rw [SendPath.findOrCreate] at hfind
    split at hfind
    · cases hfind
    · split at hfind
      · next heq =>
        cases hfind
        exact h.batches _ flow heq hopen
      · obtain ⟨params, -, rfl⟩ := Option.map_eq_some_iff.mp hfind
        exact absurd rfl hopen

section PreProcess
variable {e : SendPeer} {p : Parcel} {requireAuth retained : Bool} {c : Choices}

theorem afterStamp (h : Keeps A B Q D s) (rules : CustodyRules A B Q D (some e))
    (hfly : e.established = true → B p)
    (hheld : e.established = false → retained = true → B p)
    (hpark : e.established = false → Q requireAuth p) :
    Keeps A B Q D (s.afterStamp e p requireAuth retained c).1 := by
  rw [SendPath.afterStamp]
  split
  · next hest =>
    have hp := hfly hest
    have hd := rules.fly e rfl hest p hp
    split
    · exact (h.store true c.slot hp).depart hd
    · exact h.depart hd
  · next hest =>
    rw [Bool.not_eq_true] at hest
    split
    · next hret => exact h.store true c.slot (hheld hest hret)
    · exact h.park (hpark hest) retained c.pendingSlot

theorem sendOnFlow (h : Keeps A B Q D s) (rules : CustodyRules A B Q D (some e))
    (hfly : e.established = true → B p)
    (hheld : e.established = false → s.keepsBody p retained c = true → B p)
    (hpark : e.established = false → Q requireAuth p) :
    Keeps A B Q D (s.sendOnFlow e p requireAuth retained c).1 := by
  rw [SendPath.sendOnFlow]
  split
  · exact h
  · dsimp only
    have hkept := h.admitFlow p e.established c
    -- stamping does not matter to any of the properties
    have hB : B p → B (s.admitFlow p e.established c).2.1 := by
      intro hp
      rcases s.admitFlow_stamp p e.established c with heq | ⟨assoc, heq⟩
      · rwa [heq]
      · rw [heq]
        exact rules.stamp p assoc hp
    have hQ : Q requireAuth p → Q requireAuth (s.admitFlow p e.established c).2.1 := by
      intro hp
      rcases s.admitFlow_stamp p e.established c with heq | ⟨assoc, heq⟩
      · rwa [heq]
      · rw [heq]
        exact rules.stampParked requireAuth p assoc hp
    split
    · next hsent =>
      exact hkept.afterStamp rules (fun hest => hB (hfly hest))
        (fun hest hret => hB (hheld hest (SendPath.admitFlow_keepsBody (.inl ⟨hsent, hret⟩))))
        (fun hest => hQ (hpark hest))
    · next hqueued =>
      apply hkept.store
      cases hest : e.established with
      | true => exact hfly hest
      | false => exact hheld hest (SendPath.admitFlow_keepsBody (.inr hqueued))
    · exact hkept
    · exact hkept
    · exact hkept

theorem preProcessKnown (h : Keeps A B Q D s) (rules : CustodyRules A B Q D (some e))
    (hfly : e.established = true → (requireAuth = true → e.authenticated = true) → B p)
    (hheld : e.established = false → s.keepsBody p retained c = true → B p)
    (hpark : e.established = false → Q requireAuth p) :
    Keeps A B Q D (s.preProcessKnown e p requireAuth retained c).1 := by
  rw [SendPath.preProcessKnown]
  split
  · exact h
  · next hauth =>
    have hpass : e.established = true → B p := by
      intro hest
      refine hfly hest fun hreq => ?_
      simpa [hest, hreq] using hauth
    split
    · next hplain =>
      split
      · next hest => exact h.depart (rules.flyPlain e rfl hest p (hpass hest) (by simpa using hplain))
      · next hest => exact h.park (hpark (by simpa using hest)) _ _
    · split
      · exact h
      · split
        · exact h.sendOnFlow rules hpass hheld hpark
        · exact h.afterStamp rules hpass (fun _ hret => by cases hret) hpark

theorem preProcessOut (h : Keeps A B Q D s) (rules : CustodyRules A B Q D s.peer)
    (hfly : ∀ e, s.peer = some e → e.established = true →
      (requireAuth = true → e.authenticated = true) → B p)
    (hheld : (∀ e, s.peer = some e → e.established = false) →
      s.keepsBody p retained c = true → B p)
    (hpark : (∀ e, s.peer = some e → e.established = false) → Q requireAuth p) :
    Keeps A B Q D (s.preProcessOut p requireAuth retained c).1 := by
  rw [SendPath.preProcessOut]
  cases hpeer : s.peer with
  | some e =>
    rw [hpeer] at rules
    have hdown : e.established = false → ∀ e', s.peer = some e' → e'.established = false := by
      intro hest e' he'
      rw [hpeer] at he'
      cases he'
      exact hest
    exact h.preProcessKnown rules (hfly e hpeer) (fun hest => hheld (hdown hest))
      (fun hest => hpark (hdown hest))
  | none =>
    rw [hpeer] at rules
    have hdown : ∀ e, s.peer = some e → e.established = false := by
      intro e he
      rw [hpeer] at he
      cases he
    dsimp only
    split
    · exact (h.setPeer (some .blank)).preProcessKnown rules.blank (fun hest => by cases hest)
        (fun _ => hheld hdown) (fun _ => hpark hdown)
    · exact h

end PreProcess

end Keeps

end Calls

end BcpFlux.Socket
