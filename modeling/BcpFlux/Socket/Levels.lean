import BcpFlux.Library.Runs
import BcpFlux.Socket.SendCustody

/-! # The level a message leaves at

The controller of a packet says how it is sealed, and the controller of a batch is the
one of the message that opened it.  A message built at the default level therefore
leaves encrypted as long as it is never appended to a batch that a MAC-only message
opened.
-/

namespace BcpFlux.Socket
open Library Wire BcpFlux.Flow Peer

/-- Messages of the default level under a controller that has them encrypted. -/
def Parcel.Confidential (p : Parcel) : Prop :=
  ∀ m ∈ p.carries, m.level = .encrypted →
    p.bytes.isSecure = true ∧ hasBit p.bytes.controller ctrlMacOnly = false

/-- Messages of the default level in a packet with `CTRL_MACONLY` clear, sealed with
`SealSecurePacket`. -/
def Departure.Confidential (d : Departure) : Prop :=
  ∀ m ∈ d.packet.carries, m.level = .encrypted →
    d.kind = some .encrypted ∧ hasBit d.packet.bytes.controller ctrlMacOnly = false

/-- The same for an open batch, which keeps a header to be sealed under. -/
structure ConfidentialBatch (batch : OpenBatch) (messages : List Message) : Prop where
  confidential : Parcel.Confidential ⟨batch.buffer, messages⟩
  secure : Datagram.isSecure batch.buffer = true
  header_pos : 0 < batch.header

variable {d : Datagram}

/-! ## Stamping and sealing -/

theorem stampBytes_controller (hne : d ≠ []) (seq : ℕ) (flowEpoch : UInt8) :
    (stampBytes d seq flowEpoch).controller = d.controller ∧ stampBytes d seq flowEpoch ≠ [] := by
  cases d with
  | nil => exact absurd rfl hne
  | cons controller rest => simp [stampBytes, Datagram.controller]

theorem isSecure_ne_nil (h : d.isSecure = true) : d ≠ [] := by
  rintro rfl
  cases h

theorem stampBytes_isSecure (h : d.isSecure = true) (seq : ℕ) (flowEpoch : UInt8) :
    (stampBytes d seq flowEpoch).isSecure = true := by
  obtain ⟨hcontroller, hne⟩ := stampBytes_controller (isSecure_ne_nil h) seq flowEpoch
  have hvalid : 1 ≤ (stampBytes d seq flowEpoch).length := List.length_pos_iff.mpr hne
  simp only [Datagram.isSecure, Datagram.isValid, Bool.and_eq_true, decide_eq_true_eq] at h ⊢
  rw [hcontroller]
  exact ⟨hvalid, h.2⟩

variable {p : Parcel}

theorem Parcel.Confidential.stamp (h : p.Confidential) (flow : OutAssociation) :
    (p.stamp flow).Confidential := by
  intro m hm hlevel
  obtain ⟨hsecure, hbit⟩ := h m hm hlevel
  refine ⟨stampBytes_isSecure hsecure _ _, ?_⟩
  rw [Parcel.stamp, (stampBytes_controller (isSecure_ne_nil hsecure) _ _).1]
  exact hbit

theorem sealKindOf_encrypted (h : hasBit d.controller ctrlMacOnly = false) :
    sealKindOf d = .encrypted := by
  simp [sealKindOf, Datagram.isMacOnly, h]

theorem confidential_rules (peer : Option SendPeer) :
    CustodyRules ConfidentialBatch Parcel.Confidential (fun _ p => p.Confidential)
      Departure.Confidential peer where
  body := fun _ _ _ h => h.confidential
  flight := fun _ _ _ h => ⟨h.confidential, h.secure, h.header_pos⟩
  stamp := fun _ flow h => h.stamp flow
  stampParked := fun _ _ flow h => h.stamp flow
  fly := by
    intro e _ _ p h m hm hlevel
    obtain ⟨-, hbit⟩ := h m hm hlevel
    exact ⟨congrArg some (sealKindOf_encrypted hbit), hbit⟩
  flyEncrypted := by
    intro e _ _ p h m hm hlevel
    exact ⟨rfl, (h m hm hlevel).2⟩
  flyPlain := by
    intro e _ _ p h hplain m hm hlevel
    have hsecure := (h m hm hlevel).1
    rw [hplain] at hsecure
    cases hsecure
  park := fun _ _ h _ => h

/-! ## Building and batching -/

theorem confidential_of_built {m : Submission} {bytes : Datagram}
    (h : Built m.level m.target m.content bytes) : Parcel.Confidential ⟨bytes, [m.message]⟩ := by
  intro m' hm' hlevel
  rw [List.mem_singleton.mp hm'] at hlevel
  have hlevel : m.level = .encrypted := hlevel
  have hsecure : bytes.isSecure = true := by simp [h.secure_eq, hlevel]
  have hmac := h.macOnly_eq
  rw [Datagram.isMacOnly, hsecure, Bool.true_and] at hmac
  exact ⟨hsecure, by simpa [hlevel] using hmac⟩

/-- Default-level messages on their way to the open batch of a MAC-only message that has room
for them. -/
def SendPath.mixes (s : SendPath) (p : Parcel) (requireAuth : Bool) (c : Choices) : Bool :=
  (p.carries.any fun m => decide (m.level = .encrypted)) && !isHandFramed p.bytes &&
    match s.offerTarget p requireAuth with
    | none => false
    | some flow => wouldAdmit flow.assoc c.budget p.bytes.length && !flow.batch.inFlight &&
      decide (flow.batch.buffer ≠ []) &&
      hasBit (Datagram.controller flow.batch.buffer) ctrlMacOnly &&
      batchFits (flow.batch.cursor (OpenBatch.appendLimit p.bytes maxWirePacketSize))
        (p.bytes.drop p.bytes.contentOffset).length

theorem mayOpen_confidential (h : p.Confidential) (hsecure : p.bytes.isSecure = true) :
    MayOpen ConfidentialBatch p := by
  intro batch hnil happ
  rcases batch.appendToBatch_cases p.bytes maxWirePacketSize with
    ⟨hne, -⟩ | ⟨-, ⟨-, -, heq⟩ | ⟨hopen, -⟩⟩
  · exact absurd happ hne
  · rw [heq]
    exact ⟨h, hsecure, contentOffset_pos p.bytes⟩
  · exact absurd hnil hopen

variable {s : SendPath}

theorem mayJoin_confidential {requireAuth : Bool} {c : Choices}
    (hbatches : ∀ flowId flow, s.flows flowId = some flow → flow.batch.buffer ≠ [] →
      ConfidentialBatch flow.batch flow.carries)
    (hmixes : s.mixes p requireAuth c = false) :
    MayJoin ConfidentialBatch s p requireAuth c := by
  intro _ hwhole flow htarget hadmit hopen happ
  have hbatch := hbatches _ flow (s.offerTarget_some htarget).1 hopen
  rcases flow.batch.appendToBatch_cases p.bytes maxWirePacketSize with
    ⟨hne, -⟩ | ⟨⟨-, -, hflight⟩, ⟨hnil, -⟩ | ⟨-, cursor, hcursor, heq⟩⟩
  · exact absurd happ hne
  · exact absurd hnil hopen
  · have hsame := sameHeader_extended hopen hbatch.header_pos cursor.content
    have hfits := batchFits_of_append hcursor
    rw [List.length_drop] at hfits
    rw [heq]
    refine ⟨fun m hm hlevel => ⟨?_, ?_⟩, ?_, hbatch.header_pos⟩
    · exact hsame.isSecure.trans hbatch.secure
    · refine (hsame.bits ctrlMacOnly (by decide)).trans ?_
      rcases List.mem_append.mp hm with hm | hm
      · exact (hbatch.confidential m hm hlevel).2
      -- the new message is of the default level and the batch has room, so it is not MAC-only
      · have hany : p.carries.any (fun m => decide (m.level = .encrypted)) = true :=
          List.any_eq_true.mpr ⟨m, hm, by simpa using hlevel⟩
        simpa [SendPath.mixes, hany, hwhole, htarget, hadmit, hflight, hopen, hfits] using hmixes
    · exact hsame.isSecure.trans hbatch.secure

/-! ## Whole runs -/

/-- The packet a step offers to a batch, with its requirement. -/
def SendPath.offers (s : SendPath) : SendEvent → Option (Parcel × Bool × Choices)
  | .send m flush _ _ => (buildPacket m.level m.tagged m.target m.content).map fun bytes =>
    (⟨bytes, [m.message]⟩, m.secured, flush)
  | .sendDetached flush _ _ => s.detached.head?.map fun x => (x.1.packet, x.1.requireAuth, flush)
  | _ => none

/-- The step appends no default-level message to a MAC-only batch. -/
def SendPath.Separates (s : SendPath) (e : SendEvent) : Prop :=
  (s.offers e).all (fun x => !s.mixes x.1 x.2.1 x.2.2) = true

instance (s : SendPath) (e : SendEvent) : Decidable (s.Separates e) :=
  inferInstanceAs (Decidable (_ = true))

/-- What the socket holds and has sent, while no levels were mixed. -/
def SendPath.Confidential (s : SendPath) : Prop :=
  Keeps ConfidentialBatch Parcel.Confidential (fun _ p => p.Confidential) Departure.Confidential s

theorem maySend_confidential (h : s.Confidential)
    (hp : p.Confidential) {requireAuth retained left : Bool} {flush own : Choices}
    (hmixes : s.mixes p requireAuth flush = false) :
    MaySend ConfidentialBatch Parcel.Confidential (fun _ p => p.Confidential) s p requireAuth
      retained flush own left where
  batch := fun _ _ _ _ hsecure => mayOpen_confidential hp hsecure
  join := mayJoin_confidential h.batches hmixes
  fly := fun _ _ _ _ => hp
  held := fun _ _ => hp
  park := fun _ => hp

theorem SendPath.Confidential.step (timers : FlowTimers) {e : SendEvent}
    (hsep : s.Separates e) (h : s.Confidential) : (s.step timers e).Confidential := by
  apply Keeps.step timers h (confidential_rules s.peer)
  cases e with
  | send m flush own left =>
    intro bytes hbytes
    simp only [SendPath.Separates, SendPath.offers, hbytes, Option.map_some, Option.all_some,
      Bool.not_eq_true'] at hsep
    exact maySend_confidential h (confidential_of_built (buildPacket_built hbytes)) hsep
  | sendDetached flush own left =>
    intro pp authenticated rest hdetached _ hp
    simp only [SendPath.Separates, SendPath.offers, hdetached, List.head?_cons, Option.map_some,
      Option.all_some, Bool.not_eq_true'] at hsep
    have hrest : SendPath.Confidential { s with detached := rest } := by
      refine ⟨h.batches, h.staged, h.waiting, h.parked, fun x hx => h.detached x ?_, h.departed⟩
      rw [hdetached]
      exact List.mem_cons_of_mem _ hx
    exact maySend_confidential hrest hp hsep
  | _ => trivial

/-- In every run whose steps never append a default-level message to the open batch of a
MAC-only one: whatever leaves with a default-level message in it has `CTRL_MACONLY` clear and
was sealed with `SealSecurePacket`. -/
theorem SendPath.encrypted_never_macOnly (timers : FlowTimers) (es : List SendEvent)
    (hsep : Along (SendPath.step timers) SendPath.Separates .initial es) :
    ∀ d ∈ (run (SendPath.step timers) .initial es).departed, ∀ m ∈ d.packet.carries,
      m.level = .encrypted →
        d.kind = some .encrypted ∧ hasBit d.packet.bytes.controller ctrlMacOnly = false := by
  have hrun := run_invariant (SendPath.step timers) SendPath.Confidential SendPath.Separates
    (fun s e hsep h => h.step timers hsep) keeps_initial hsep
  exact hrun.departed

/-! ## Two levels on one flow -/

def easyTimers : FlowTimers := ⟨100000, 1000, 1000000⟩

def easyBudget : PeerBudget := ⟨⟨0, 0, 0, 0, 0⟩, 1000000, 0, 0, 0, 0, 0, 0⟩

def easyChoices (slot : ℕ) : Choices where
  slot := slot
  connects := true
  wireSlot := true
  pendingSlot := true
  created := some ⟨0, ⟨[], 0, 0⟩, ⟨[]⟩, 0, .reliableOrdered, 1, 4⟩
  oldEpoch := 0
  budget := easyBudget
  now := 1
  taken := true

def flowMessage (content : List UInt8) (level : Security) (secured : Bool) : Submission :=
  ⟨content, level, false, some ⟨5, .reliableOrdered, 8, .whole⟩, secured⟩

/-- With a session up and the association created by a first message: two more share a batch,
and the batch is flushed. -/
def batchOfTwo (first second : Security) : List SendEvent :=
  [.connect, .complete true,
    .send (flowMessage [1] .encrypted false) (easyChoices 0) (easyChoices 0) true,
    .send (flowMessage [2] first false) (easyChoices 1) (easyChoices 1) true,
    .send (flowMessage [3] second false) (easyChoices 2) (easyChoices 2) true,
    .sealBatch 5 (easyChoices 3), .settleBatch true]

/-- Two default-level messages leave in one encrypted packet. -/
theorem SendPath.encrypted_never_macOnly_batch :
    (∃ d ∈ (run (SendPath.step easyTimers) .initial (batchOfTwo .encrypted .encrypted)).departed,
      d.packet.carries.length = 2) ∧
    ∀ d ∈ (run (SendPath.step easyTimers) .initial (batchOfTwo .encrypted .encrypted)).departed,
      ∀ m ∈ d.packet.carries, m.level = .encrypted →
        d.kind = some .encrypted ∧ hasBit d.packet.bytes.controller ctrlMacOnly = false :=
  ⟨by decide +kernel, SendPath.encrypted_never_macOnly easyTimers _ (by decide +kernel)⟩

/-- A MAC-only message opens the batch and a default-level one joins it: its bytes leave in a
packet that is authenticated and not encrypted. -/
theorem SendPath.encrypted_in_macOnly_batch :
    ∃ d ∈ (run (SendPath.step easyTimers) .initial (batchOfTwo .macOnly .encrypted)).departed,
      ∃ m ∈ d.packet.carries, m.level = .encrypted ∧ m.content = [3] ∧
        d.kind = some .macOnly ∧ hasBit d.packet.bytes.controller ctrlMacOnly = true ∧
        messagesOf d.packet.bytes = [[2], [3]] := by
  decide +kernel

end BcpFlux.Socket
