import BcpFlux.Socket.Levels

/-! # Where the requirement of a secured send goes

`SendSecured` asks that the peer has proved a trusted identity.  The pending list keeps
the requirement with the packet and judges it when the handshake is over.  A body the
association holds, in the in-flight ring or in the waiting ring, keeps no requirement,
and what seals it later asks for a session alone.
-/

namespace BcpFlux.Socket
open Library Wire BcpFlux.Flow Peer

/-- A session with a peer that proved a trusted identity. -/
def Trusted (peer : Option SendPeer) : Prop :=
  ∃ e, peer = some e ∧ e.established = true ∧ e.authenticated = true

def SessionUp (peer : Option SendPeer) : Prop := ∃ e, peer = some e ∧ e.established = true

def Parcel.Secured (p : Parcel) : Prop := ∃ m ∈ p.carries, m.secured = true

theorem Trusted.authenticated {peer : Option SendPeer} {e : SendPeer} (h : Trusted peer)
    (he : peer = some e) : e.authenticated = true := by
  obtain ⟨e', he', -, hauth⟩ := h
  rw [he] at he'
  cases he'
  exact hauth

theorem not_sessionUp {peer : Option SendPeer} (h : ∀ e, peer = some e → e.established = false) :
    ¬ SessionUp peer := by
  rintro ⟨e, he, hest⟩
  rw [h e he] at hest
  cases hest

/-! ## The peer entry along a step -/

namespace SendPath
variable (s : SendPath)

theorem sendPacket_peer (p : Parcel) (requireAuth retained : Bool) (flush own : Choices)
    (left : Bool) (h : s.peer.isSome = true) :
    (s.sendPacket p requireAuth retained flush own left).1.peer = s.peer := by
  have hoffer := s.offerToBatch_peer p requireAuth flush left
  rw [sendPacket]
  split
  · exact hoffer
  · rw [(preProcessOut_sameBatches _ _ _ _ _ (by rw [hoffer]; exact h)).peer_eq]
    exact hoffer

theorem submit_peer (m : Submission) (flush own : Choices) (left : Bool)
    (h : s.peer.isSome = true) : (s.submit m flush own left).peer = s.peer := by
  rw [submit]
  split
  · rfl
  · split
    · rfl
    · exact s.sendPacket_peer _ _ _ _ _ _ h

theorem sendDetached_peer (flush own : Choices) (left : Bool) (h : s.peer.isSome = true) :
    (s.sendDetached flush own left).peer = s.peer := by
  rw [sendDetached]
  split
  · rfl
  · next rest _ =>
    dsimp only
    split
    · rfl
    · split
      · rfl
      · exact sendPacket_peer { s with detached := rest } _ _ _ _ _ _ h

theorem releaseHeld_peer (flow : OutAssociation) : (s.releaseHeld flow).peer = s.peer := by
  rw [releaseHeld]
  split <;> rfl

theorem failFlow_peer (flowId : ℕ) : (s.failFlow flowId).peer = s.peer := by
  rw [failFlow]
  split
  · rfl
  · split
    · rfl
    · exact s.releaseHeld_peer _

theorem retransmit_peer (timers : FlowTimers) (flowId : ℕ) (left : ℕ → Bool)
    (budget : PeerBudget) (now : ℕ) :
    (s.retransmit timers flowId left budget now).peer = s.peer := by
  rw [retransmit]
  split
  · split
    · dsimp only
      split
      · exact s.failFlow_peer flowId
      · rfl
    · rfl
  · rfl

theorem drainWaiting_peer (flowId epoch slot : ℕ) (left : Bool) (budget : PeerBudget) (now : ℕ) :
    (s.drainWaiting flowId epoch slot left budget now).peer = s.peer := by
  unfold drainWaiting leaveWaiting store
  split
  · split
    · split
      · rfl
      · dsimp only
        split
        · split
          · rfl
          · split <;> rfl
        · rfl
    · rfl
  · rfl

theorem step_peer (timers : FlowTimers) {e : SendEvent} (hremove : e ≠ .removePeer)
    {peer : SendPeer} (hpeer : s.peer = some peer) :
    ∃ peer', (s.step timers e).peer = some peer' ∧
      (peer.established = true → peer'.established = true ∧
        (peer.authenticated = true → peer'.authenticated = true)) := by
  have hsome : s.peer.isSome = true := by rw [hpeer]; rfl
  have hsame : ∀ s' : SendPath, s'.peer = s.peer → ∃ peer', s'.peer = some peer' ∧
      (peer.established = true → peer'.established = true ∧
        (peer.authenticated = true → peer'.authenticated = true)) :=
    fun s' h => ⟨peer, h.trans hpeer, fun hest => ⟨hest, id⟩⟩
  cases e with
  | send m flush own left => exact hsame _ (s.submit_peer m flush own left hsome)
  | sealBatch flowId c =>
    apply hsame
    simp only [step, sealBatch]
    split <;> exact s.sealOneBatch_peer flowId c
  | settleBatch left =>
    apply hsame
    simp only [step, settleBatch]
    split
    · rfl
    · exact finishBatchOf_peer _ _ _ _
  | detachPending =>
    apply hsame
    simp only [step, detachPending]
    split <;> rfl
  | sendDetached flush own left => exact hsame _ (s.sendDetached_peer flush own left hsome)
  | retransmit flowId left budget now =>
    exact hsame _ (s.retransmit_peer timers flowId left budget now)
  | drainWaiting flowId epoch slot left budget now =>
    exact hsame _ (s.drainWaiting_peer flowId epoch slot left budget now)
  | acknowledge flowId ack rtt now =>
    apply hsame
    simp only [step, acknowledge]
    split <;> rfl
  | failFlow flowId => exact hsame _ (s.failFlow_peer flowId)
  | closeFlow flowId =>
    apply hsame
    simp only [step, closeFlow]
    split
    · rfl
    · exact s.releaseHeld_peer _
  | connect => exact hsame _ (by simp [step, hpeer])
  | complete trusted =>
    obtain ⟨established, authenticated⟩ := peer
    cases established with
    | false => exact ⟨⟨true, trusted⟩, by simp [step, hpeer], fun h => by cases h⟩
    | true => exact hsame _ (by simp [step, hpeer])
  | validate =>
    exact ⟨⟨true, peer.authenticated⟩, by simp [step, hpeer], fun _ => ⟨rfl, id⟩⟩
  | removePeer => exact absurd rfl hremove

end SendPath

/-! ## Batches need a session -/

/-- An open batch is there only while a session is. -/
def SendPath.BatchesUp (s : SendPath) : Prop :=
  Keeps (fun _ _ => SessionUp s.peer) (fun _ => True) (fun _ _ => True) (fun _ => True) s

theorem sessionUp_rules (up : Prop) (peer : Option SendPeer) :
    CustodyRules (fun _ _ => up) (fun _ => True) (fun _ _ => True) (fun _ => True) peer where
  body := fun _ _ _ _ => trivial
  flight := fun _ _ _ h => h
  stamp := fun _ _ _ => trivial
  stampParked := fun _ _ _ _ => trivial
  fly := fun _ _ _ _ _ => trivial
  flyEncrypted := fun _ _ _ _ _ => trivial
  flyPlain := fun _ _ _ _ _ _ => trivial
  park := fun _ _ _ _ => trivial

theorem maySend_sessionUp (s : SendPath) (p : Parcel) (requireAuth retained : Bool)
    (flush own : Choices) (left : Bool) :
    MaySend (fun _ _ => SessionUp s.peer) (fun _ => True) (fun _ _ => True) s p requireAuth retained
      flush own left where
  batch := fun e he hest _ _ _ _ _ => ⟨e, he, hest⟩
  join := by
    intro _ _ flow htarget _ _ _
    obtain ⟨-, e, he, hest, -⟩ := s.offerTarget_some htarget
    exact ⟨e, he, hest⟩
  fly := fun _ _ _ _ => trivial
  held := fun _ _ => trivial
  park := fun _ => trivial

theorem SendPath.BatchesUp.step (timers : FlowTimers) {s : SendPath} (h : s.BatchesUp)
    (e : SendEvent) : (s.step timers e).BatchesUp := by
  have hkept : Keeps (fun _ _ => SessionUp s.peer) (fun _ => True) (fun _ _ => True)
      (fun _ => True) (s.step timers e) := by
    apply Keeps.step timers h (sessionUp_rules _ s.peer)
    cases e with
    | send m flush own left => exact fun bytes _ => maySend_sessionUp s _ _ _ _ _ _
    | sendDetached flush own left =>
      exact fun pp _ rest _ _ _ => maySend_sessionUp { s with detached := rest } _ _ _ _ _ _
    | _ => trivial
  by_cases hremove : e = .removePeer
  · subst hremove
    exact ⟨fun _ _ hflow => (by cases hflow), hkept.staged, hkept.waiting, hkept.parked,
      hkept.detached, hkept.departed⟩
  · apply hkept.mono
    · rintro _ _ ⟨peer, hpeer, hest⟩
      obtain ⟨peer', hpeer', hup⟩ := s.step_peer timers hremove hpeer
      exact ⟨peer', hpeer', (hup hest).1⟩
    · exact fun _ _ => trivial

/-- Without a session no batch is open, so an offer changes nothing. -/
theorem SendPath.BatchesUp.offerToBatch_eq {s : SendPath} (h : s.BatchesUp)
    (hdown : ∀ e, s.peer = some e → e.established = false) (p : Parcel) (requireAuth : Bool)
    (c : Choices) (left : Bool) : (s.offerToBatch p requireAuth c left).1 = s := by
  have hflush : ∀ flowId, (s.goAround flowId c left).1 = s := by
    intro flowId
    unfold goAround flushFlowOf
    split
    · rfl
    · unfold flushOneBatch sealOneBatch
      cases hflow : s.flows flowId with
      | none => rfl
      | some flow =>
        have hempty : flow.batch.buffer = [] := by
          by_contra hopen
          exact not_sessionUp hdown (h.batches flowId flow hflow hopen)
        simp [OpenBatch.peekBatch, hempty]
  rw [offerToBatch]
  split
  · rfl
  · split
    · exact hflush _
    · cases htarget : s.offerTarget p requireAuth with
      | none => rfl
      | some flow =>
        obtain ⟨-, e, he, hest, -⟩ := s.offerTarget_some htarget
        exact absurd ⟨e, he, hest⟩ (not_sessionUp hdown)

/-! ## The requirement along a run -/

/-- The association would take the body of a secured packet over, with no session to judge
the peer by. -/
def SendPath.forgets (s : SendPath) (p : Parcel) (requireAuth retained : Bool) (c : Choices) :
    Bool :=
  requireAuth && !(s.peer.any SendPeer.established) && s.keepsBody p retained c

/-- The step hands no secured packet over to an association that would forget the
requirement. -/
def SendPath.Remembers (s : SendPath) : SendEvent → Prop
  | .send m _ own _ => (buildPacket m.level m.tagged m.target m.content).all
      (fun bytes => !s.forgets ⟨bytes, [m.message]⟩ m.secured m.retained own) = true
  | .sendDetached _ own _ => s.detached.head?.all
      (fun x => !s.forgets x.1.packet x.1.requireAuth x.1.keepsBodyForResend own) = true
  | _ => True

instance (s : SendPath) : DecidablePred s.Remembers
  | .send _ _ _ _ | .sendDetached _ _ _ => inferInstanceAs (Decidable (_ = true))
  | .sealBatch _ _ | .settleBatch _ | .detachPending | .retransmit _ _ _ _
  | .drainWaiting _ _ _ _ _ _ | .acknowledge _ _ _ _ | .failFlow _ | .closeFlow _ | .connect
  | .complete _ | .validate | .removePeer => isTrue trivial

/-- Secured messages rest with the association of a trusted peer or under their requirement,
and left for a trusted peer. -/
def SendPath.Judged (trusted : Prop) (s : SendPath) : Prop :=
  Keeps (fun _ messages => (∃ m ∈ messages, m.secured = true) → trusted)
    (fun p => p.Secured → trusted) (fun requireAuth p => p.Secured → requireAuth = true)
    (fun d => d.packet.Secured → d.authenticated = true) s

theorem judged_rules (peer : Option SendPeer) :
    CustodyRules (fun _ messages => (∃ m ∈ messages, m.secured = true) → Trusted peer)
      (fun p => p.Secured → Trusted peer) (fun requireAuth p => p.Secured → requireAuth = true)
      (fun d => d.packet.Secured → d.authenticated = true) peer where
  body := fun _ _ _ h => h
  flight := fun _ _ _ h => h
  stamp := fun _ _ h => h
  stampParked := fun _ _ _ h => h
  fly := fun _ he _ _ h hsecured => (h hsecured).authenticated he
  flyEncrypted := fun _ he _ _ h hsecured => (h hsecured).authenticated he
  flyPlain := fun _ he _ _ h _ hsecured => (h hsecured).authenticated he
  park := by
    intro hdown p h r hsecured
    obtain ⟨e, he, hest, -⟩ := h hsecured
    exact absurd ⟨e, he, hest⟩ (not_sessionUp hdown)

theorem maySend_judged {s : SendPath} (hup : s.BatchesUp) (h : s.Judged (Trusted s.peer))
    {p : Parcel} {requireAuth retained left : Bool} {flush own : Choices}
    (hp : p.Secured → requireAuth = true)
    (hforgets : s.forgets p requireAuth retained own = false) :
    MaySend (fun _ messages => (∃ m ∈ messages, m.secured = true) → Trusted s.peer)
      (fun p => p.Secured → Trusted s.peer) (fun requireAuth p => p.Secured → requireAuth = true)
      s p requireAuth retained flush own left where
  batch := fun e he hest hauth _ _ _ _ hsecured => ⟨e, he, hest, hauth (hp hsecured)⟩
  join := by
    rintro _ _ flow htarget _ hopen _ ⟨m, hm, hsecured⟩
    obtain ⟨hflow, e, he, hest, hauth⟩ := s.offerTarget_some htarget
    rcases List.mem_append.mp hm with hm | hm
    · exact h.batches _ flow hflow hopen ⟨m, hm, hsecured⟩
    · exact ⟨e, he, hest, hauth (hp ⟨m, hm, hsecured⟩)⟩
  fly := fun e he hest hauth hsecured => ⟨e, he, hest, hauth (hp hsecured)⟩
  held := by
    intro hdown hkeeps hsecured
    rw [hup.offerToBatch_eq hdown] at hkeeps
    have hnone : s.peer.any SendPeer.established = false := by
      cases hpeer : s.peer with
      | none => rfl
      | some e => exact hdown e hpeer
    simp [SendPath.forgets, hp hsecured, hnone, hkeeps] at hforgets
  park := fun _ => hp

theorem SendPath.Judged.step (timers : FlowTimers) {s : SendPath} (hup : s.BatchesUp)
    (h : s.Judged (Trusted s.peer)) {e : SendEvent} (hrem : s.Remembers e) :
    (s.step timers e).Judged (Trusted (s.step timers e).peer) := by
  have hkept : (s.step timers e).Judged (Trusted s.peer) := by
    apply Keeps.step timers h (judged_rules s.peer)
    cases e with
    | send m flush own left =>
      intro bytes hbytes
      simp only [SendPath.Remembers, hbytes, Option.all_some, Bool.not_eq_true'] at hrem
      apply maySend_judged hup h _ hrem
      rintro ⟨m', hm', hsecured⟩
      rw [List.mem_singleton.mp hm'] at hsecured
      exact hsecured
    | sendDetached flush own left =>
      intro pp authenticated rest hdetached _ hp
      simp only [SendPath.Remembers, hdetached, List.head?_cons, Option.all_some,
        Bool.not_eq_true'] at hrem
      have hmem : ∀ x ∈ rest, x ∈ s.detached := by
        intro x hx
        rw [hdetached]
        exact List.mem_cons_of_mem _ hx
      have hup' : SendPath.BatchesUp { s with detached := rest } :=
        ⟨hup.batches, hup.staged, hup.waiting, hup.parked, fun x hx => hup.detached x (hmem x hx),
          hup.departed⟩
      have h' : SendPath.Judged (Trusted s.peer) { s with detached := rest } :=
        ⟨h.batches, h.staged, h.waiting, h.parked, fun x hx => h.detached x (hmem x hx),
          h.departed⟩
      exact maySend_judged hup' h' hp hrem
    | _ => trivial
  by_cases hremove : e = .removePeer
  · subst hremove
    exact ⟨fun _ _ hflow => (by cases hflow), fun _ _ hp => (by cases hp),
      fun _ _ hp => (by cases hp), hkept.parked, hkept.detached, hkept.departed⟩
  · have hmono : Trusted s.peer → Trusted (s.step timers e).peer := by
      rintro ⟨peer, hpeer, hest, hauth⟩
      obtain ⟨peer', hpeer', hkeep⟩ := s.step_peer timers hremove hpeer
      exact ⟨peer', hpeer', (hkeep hest).1, (hkeep hest).2 hauth⟩
    exact hkept.mono (fun _ _ h hsecured => hmono (h hsecured))
      (fun _ h hsecured => hmono (h hsecured))

/-- In every run whose steps hand no secured packet to an association while there is no
session: whatever carries a secured message was sealed to a peer whose `authenticated` flag
was set. -/
theorem SendPath.secured_reaches_authenticated (timers : FlowTimers) (es : List SendEvent)
    (hrem : Along (SendPath.step timers) SendPath.Remembers .initial es) :
    ∀ d ∈ (run (SendPath.step timers) .initial es).departed, ∀ m ∈ d.packet.carries,
      m.secured = true → d.authenticated = true := by
  have hrun := run_invariant (SendPath.step timers)
    (fun s => s.BatchesUp ∧ s.Judged (Trusted s.peer)) SendPath.Remembers
    (fun s e hrem h => ⟨h.1.step timers e, h.2.step timers h.1 hrem⟩)
    ⟨keeps_initial, keeps_initial⟩ hrem
  intro d hd m hm hsecured
  exact hrun.2.departed d hd ⟨m, hm, hsecured⟩

/-! ## A secured send during the handshake -/

def parkedSend (trusted : Bool) : List SendEvent :=
  [.connect, .send ⟨[1], .encrypted, false, none, true⟩ (easyChoices 0) (easyChoices 0) true,
    .complete trusted, .detachPending, .sendDetached (easyChoices 0) (easyChoices 0) true]

/-- Parked behind the handshake, it leaves for the peer that proved its identity. -/
theorem SendPath.secured_reaches_authenticated_parked :
    (∃ d ∈ (run (SendPath.step easyTimers) .initial (parkedSend true)).departed,
      ∃ m ∈ d.packet.carries, m.secured = true) ∧
    ∀ d ∈ (run (SendPath.step easyTimers) .initial (parkedSend true)).departed,
      ∀ m ∈ d.packet.carries, m.secured = true → d.authenticated = true :=
  ⟨by decide +kernel, SendPath.secured_reaches_authenticated easyTimers _ (by decide +kernel)⟩

/-- On a reliable flow the body goes to the in-flight ring instead.  The peer turns out not to
be trusted, and the first retransmit pass seals the message to it. -/
theorem SendPath.secured_resent_unauthenticated :
    ∃ d ∈ (run (SendPath.step easyTimers) .initial
        [.connect, .send (flowMessage [1] .encrypted true) (easyChoices 0) (easyChoices 0) true,
          .complete false, .retransmit 5 (fun _ => true) easyBudget 200000]).departed,
      (∃ m ∈ d.packet.carries, m.secured = true ∧ m.content = [1]) ∧
        d.kind = some .encrypted ∧ d.authenticated = false := by
  decide +kernel

end BcpFlux.Socket
