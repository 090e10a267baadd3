import BcpFlux.Socket.Levels

/-! # The size a flow packet reaches

The writer a packet is built in has eight bytes more room than the largest datagram, and
on the way out the size is asked three times: by the batch with the tag set aside, by the
pending list and the resend without it, and by the kernel on the finished datagram.
-/

namespace BcpFlux.Socket
open Library Wire BcpFlux.Flow Peer Crypto

/-- A packet that will fit the wire once it carries its tag, if it belongs to a flow. -/
structure FlowFits (d : Datagram) : Prop where
  ne_nil : d ≠ []
  header : d.hasFlow = true → d.contentOffset ≤ d.length
  size : d.hasFlow = true → d.length + wireTagSize ≤ maxWirePacketSize

/-- The datagram the kernel is handed for a departure. -/
def Departure.datagram (suite : CipherSuite) (m : PeerSendMaterials) (d : Departure) : Datagram :=
  match d.kind with
  | none => d.packet.bytes
  | some kind => sealAs suite kind d.packet.bytes.controller
      (d.packet.bytes.drop (secureHeaderSize d.packet.bytes)) m

variable {d : Datagram}

/-! ## Stamping, building, batching -/

theorem stampBytes_sameHeader (hne : d ≠ []) (seq : ℕ) (flowEpoch : UInt8) :
    SameHeader d (stampBytes d seq flowEpoch) := by
  obtain ⟨hcontroller, hne'⟩ := stampBytes_controller hne seq flowEpoch
  refine ⟨hne, hne', ?_⟩
  intro bit _
  rw [hcontroller]

theorem stampBytes_length (hflow : d.hasFlow = true)
    (hheader : d.contentOffset ≤ d.length) (seq : ℕ) (flowEpoch : UInt8) :
    (stampBytes d seq flowEpoch).length = d.length := by
  have hoffset : d.flowHeaderOffset + wireFlowHeaderSize = d.contentOffset := by
    simp only [Datagram.contentOffset, hflow, if_true] at hheader ⊢
    simp only [Datagram.flowHeaderOffset, hflow, Bool.not_true, Bool.false_eq_true, if_false,
      if_pos hheader]
  rw [wireFlowHeaderSize] at hoffset
  simp only [stampBytes, List.length_append, List.length_take, leBytes_length, List.length_cons,
    List.length_nil, List.length_drop]
  omega

theorem FlowFits.stamp (h : FlowFits d) (seq : ℕ) (flowEpoch : UInt8) :
    FlowFits (stampBytes d seq flowEpoch) := by
  have hsame := stampBytes_sameHeader h.ne_nil seq flowEpoch
  refine ⟨hsame.ne_nil', ?_, ?_⟩
  · intro hflow
    rw [hsame.hasFlow] at hflow
    rw [hsame.contentOffset, stampBytes_length hflow (h.header hflow)]
    exact h.header hflow
  · intro hflow
    rw [hsame.hasFlow] at hflow
    rw [stampBytes_length hflow (h.header hflow)]
    exact h.size hflow

/-- An open batch with the header of the packet that opened it. -/
structure FittingBatch (batch : OpenBatch) (messages : List Message) : Prop where
  fits : FlowFits batch.buffer
  header_pos : 0 < batch.header
  header_eq : batch.header = Datagram.contentOffset batch.buffer
  header_le : batch.header ≤ batch.buffer.length

theorem markBatch_length (d : Datagram) : (OpenBatch.markBatch d).length = d.length := by
  cases d <;> rfl

theorem appendLimit_secure (hsecure : d.isSecure = true) :
    OpenBatch.appendLimit d maxWirePacketSize + wireTagSize = maxWirePacketSize := by
  rw [OpenBatch.appendLimit, hsecure]
  decide

variable {p : Parcel}

theorem mayOpen_fitting (hne : p.bytes ≠ []) (hsecure : p.bytes.isSecure = true) :
    MayOpen FittingBatch p := by
  intro batch hnil happ
  rcases batch.appendToBatch_cases p.bytes maxWirePacketSize with
    ⟨hrefused, -⟩ | ⟨⟨hcontent, -⟩, ⟨-, hsize, heq⟩ | ⟨hopen, -⟩⟩
  · exact absurd happ hrefused
  · have hlimit := appendLimit_secure hsecure
    have hfits : p.bytes.length + wireTagSize ≤ maxWirePacketSize := by omega
    rw [heq]
    exact ⟨⟨hne, fun _ => hcontent.le, fun _ => hfits⟩, contentOffset_pos p.bytes, rfl,
      hcontent.le⟩
  · exact absurd hnil hopen

variable {s : SendPath}

theorem mayJoin_fitting {requireAuth : Bool} {c : Choices}
    (hbatches : ∀ flowId flow, s.flows flowId = some flow → flow.batch.buffer ≠ [] →
      FittingBatch flow.batch flow.carries) : MayJoin FittingBatch s p requireAuth c := by
  intro hsecure _ flow htarget _ hopen happ
  have hbatch := hbatches _ flow (s.offerTarget_some htarget).1 hopen
  rcases flow.batch.appendToBatch_cases p.bytes maxWirePacketSize with
    ⟨hne, -⟩ | ⟨-, ⟨hnil, -⟩ | ⟨-, cursor, hcursor, heq⟩⟩
  · exact absurd happ hne
  · exact absurd hnil hopen
  · have hsame := sameHeader_extended hopen hbatch.header_pos cursor.content
    obtain ⟨-, hcontent, hcapacity⟩ := batchAppend_fits hcursor
    have hlimit := appendLimit_secure hsecure
    rw [hcapacity, OpenBatch.cursor] at hcontent
    dsimp only at hcontent
    have hlength : (OpenBatch.markBatch (flow.batch.buffer.take flow.batch.header) ++
        cursor.content).length = flow.batch.header + cursor.content.length := by
      rw [List.length_append, markBatch_length, List.length_take_of_le hbatch.header_le]
    have hfits : FlowFits (OpenBatch.markBatch (flow.batch.buffer.take flow.batch.header) ++
        cursor.content) := by
      refine ⟨hsame.ne_nil', ?_, ?_⟩
      · intro _
        rw [hsame.contentOffset, hlength, ← hbatch.header_eq]
        exact Nat.le_add_right _ _
      · intro hflow
        rw [hsame.hasFlow] at hflow
        have hold := hbatch.fits.size hflow
        have hle := hbatch.header_le
        omega
    rw [heq]
    refine ⟨hfits, hbatch.header_pos, ?_, ?_⟩
    · exact hbatch.header_eq.trans hsame.contentOffset.symm
    · rw [hlength]
      exact Nat.le_add_right _ _

/-! ## Whole runs -/

/-- What the headers of a message on a flow and the tag of the seal take of a datagram. -/
def Submission.overhead (m : Submission) : ℕ :=
  wireSecureHeadSize + (if m.tagged then wirePeerTagSize else 0) + wireSecureChannelSize +
    wireFlowHeaderSize + wireTagSize

/-- A session does not let the packet through to its flow: no identity, or no slot to seal in. -/
def SendPeer.stops (e : SendPeer) (requireAuth retained : Bool) (c : Choices) : Bool :=
  e.established && (requireAuth && !e.authenticated || retained && !c.wireSlot)

namespace SendPath

/-- What `AdmitOut` answers inside `PreProcessOut`, if it gets that far. -/
def admission (s : SendPath) (p : Parcel) (requireAuth retained : Bool) (c : Choices) :
    Option SendAdmission :=
  let peer := s.peer.getD .blank
  if (s.peer.isNone && !c.connects) || peer.stops requireAuth retained c then none
  else some (s.admitFlow p peer.established c).1

/-- The packet is stamped or queued on the path without a batch. -/
def Enters (s : SendPath) (p : Parcel) (requireAuth retained : Bool) (c : Choices) : Prop :=
  s.admission p requireAuth retained c = some .sent ∨
    s.admission p requireAuth retained c = some .queued

instance (s : SendPath) (p : Parcel) (requireAuth retained : Bool) (c : Choices) :
    Decidable (s.Enters p requireAuth retained c) := inferInstanceAs (Decidable (_ ∨ _))

/-- A message the builder completes and the path without a batch admits to a flow leaves room for
its headers and the tag. -/
def Measured (s : SendPath) : SendEvent → Prop
  | .send m flush own left => ∀ bytes ∈ buildPacket m.level m.tagged m.target m.content,
      m.target.isSome = true → (s.pool m.retained own.slot).isSome = false →
      (s.offerToBatch ⟨bytes, [m.message]⟩ m.secured flush left).2 = none →
      (s.offerToBatch ⟨bytes, [m.message]⟩ m.secured flush left).1.Enters ⟨bytes, [m.message]⟩
        m.secured m.retained own →
      m.content.length ≤ maxWirePacketSize - m.overhead
  | _ => True

instance (s : SendPath) (e : SendEvent) : Decidable (s.Measured e) :=
  match e with
  | .send m _ _ _ =>
    inferInstanceAs (Decidable (∀ bytes ∈ buildPacket m.level m.tagged m.target m.content, _))
  | .sealBatch .. | .settleBatch .. | .detachPending | .sendDetached .. | .retransmit ..
  | .drainWaiting .. | .acknowledge .. | .failFlow .. | .closeFlow .. | .connect | .complete ..
  | .validate | .removePeer => isTrue trivial

end SendPath

theorem buildPacket_flow_length {m : Submission} {bytes : Datagram}
    (h : buildPacket m.level m.tagged m.target m.content = some bytes)
    (hflow : m.target.isSome = true) :
    bytes.length + wireTagSize = m.content.length + m.overhead := by
  obtain ⟨target, htarget⟩ := Option.isSome_iff_exists.mp hflow
  rw [htarget, buildPacket, buildHeader] at h
  split at h
  · cases h
  next header hheader =>
    split at h
    case isFalse => cases h
    cases h
    split_ifs at hheader with hpart hlevel
    cases hheader
    rw [Submission.overhead]
    cases m.tagged with
    | false =>
      simp [writeCommonHeader, writeFlowHeader, hlevel, wireNonceSize, wireSecureHeadSize,
        wireSecureChannelSize, wireFlowHeaderSize]
      omega
    | true =>
      simp [writeCommonHeader, writeFlowHeader, hlevel, wireNonceSize, wirePeerTagSize,
        wireSecureHeadSize, wireSecureChannelSize, wireFlowHeaderSize]
      omega

theorem overhead_le (m : Submission) : m.overhead ≤ maxWirePacketSize := by
  rw [Submission.overhead]
  cases m.tagged <;> decide

theorem built_ne_nil {m : Submission} {bytes : Datagram}
    (h : buildPacket m.level m.tagged m.target m.content = some bytes) : bytes ≠ [] := by
  rintro rfl
  have hlength := (buildPacket_built h).length_eq
  have hpos := contentOffset_pos []
  rw [List.length_nil] at hlength
  omega

theorem flowFits_of_built {m : Submission} {bytes : Datagram}
    (h : buildPacket m.level m.tagged m.target m.content = some bytes)
    (hsize : m.target.isSome = true → m.content.length ≤ maxWirePacketSize - m.overhead) :
    FlowFits bytes := by
  have hbuilt := buildPacket_built h
  refine ⟨built_ne_nil h, ?_, ?_⟩
  · intro _
    rw [hbuilt.length_eq]
    exact Nat.le_add_right _ _
  · intro hflow
    rw [hbuilt.hasFlow_eq] at hflow
    rw [buildPacket_flow_length h hflow]
    have hcontent := hsize hflow
    have hroom := overhead_le m
    omega

theorem fitting_rules (peer : Option SendPeer) :
    CustodyRules FittingBatch (fun p => FlowFits p.bytes) (fun _ p => FlowFits p.bytes)
      (fun d => FlowFits d.packet.bytes) peer where
  body := fun _ _ _ h => h.fits
  flight := fun _ _ _ h => ⟨h.fits, h.header_pos, h.header_eq, h.header_le⟩
  stamp := fun _ flow h => h.stamp flow.nextSeq flow.flowEpoch
  stampParked := fun _ _ flow h => h.stamp flow.nextSeq flow.flowEpoch
  fly := fun _ _ _ _ h => h
  flyEncrypted := fun _ _ _ _ h => h
  flyPlain := fun _ _ _ _ h _ => h
  park := fun _ _ h _ => h

/-- Everything the socket holds and has sent fits the wire. -/
def SendPath.Fitting (s : SendPath) : Prop :=
  Keeps FittingBatch (fun p => FlowFits p.bytes) (fun _ p => FlowFits p.bytes)
    (fun d => FlowFits d.packet.bytes) s

theorem SendPeer.stops_eq_false (e : SendPeer) {requireAuth retained : Bool} {c : Choices}
    (hauth : ¬ (e.established && requireAuth && !e.authenticated) = true)
    (hslot : ¬ (retained && e.established && !c.wireSlot) = true) :
    e.stops requireAuth retained c = false := by
  rw [SendPeer.stops]
  cases hest : e.established with
  | false => rfl
  | true =>
    rw [hest, Bool.true_and, Bool.not_eq_true] at hauth
    rw [hest, Bool.and_true, Bool.not_eq_true] at hslot
    rw [hauth, hslot]
    rfl

/-- A flow packet that is neither stamped nor queued comes to rest nowhere. -/
theorem SendPath.Fitting.preProcessKnown_refused (h : s.Fitting) (hflow : p.bytes.hasFlow = true)
    (hsecure : p.bytes.isSecure = true) {requireAuth retained : Bool} {c : Choices} {e : SendPeer}
    (hout : e.stops requireAuth retained c = false →
      (s.admitFlow p e.established c).1 ≠ .sent ∧ (s.admitFlow p e.established c).1 ≠ .queued) :
    (s.preProcessKnown e p requireAuth retained c).1.Fitting := by
  rw [preProcessKnown, if_pos hflow, sendOnFlow]
  split
  · exact h
  next hauth =>
  split
  · next hplain =>
    rw [hsecure] at hplain
    cases hplain
  split
  · exact h
  split
  · exact h
  next hslot =>
  have hverdict := hout (e.stops_eq_false hauth hslot)
  have hkept := Keeps.admitFlow h p e.established c
  dsimp only
  split
  · next hsent => exact absurd hsent hverdict.1
  · next hqueued => exact absurd hqueued hverdict.2
  · exact hkept
  · exact hkept
  · exact hkept

theorem SendPath.Fitting.preProcessOut_refused (h : s.Fitting) (hflow : p.bytes.hasFlow = true)
    (hsecure : p.bytes.isSecure = true) {requireAuth retained : Bool} {c : Choices}
    (hout : ¬ s.Enters p requireAuth retained c) :
    (s.preProcessOut p requireAuth retained c).1.Fitting := by
  rw [preProcessOut]
  rw [Enters, admission, not_or] at hout
  cases hpeer : s.peer with
  | some e =>
    refine h.preProcessKnown_refused hflow hsecure fun hpass => ?_
    simpa [hpeer, hpass] using hout
  | none =>
    dsimp only
    split
    · next hconnects =>
      have hblank : SendPath.Fitting { s with peer := some .blank } := Keeps.setPeer h _
      refine hblank.preProcessKnown_refused hflow hsecure fun _ => ?_
      -- the admission does not read the peer
      have hsame : (SendPath.admitFlow { s with peer := some .blank } p SendPeer.blank.established
          c).1 = (s.admitFlow p SendPeer.blank.established c).1 := by
        have hfind : SendPath.findOrCreate { s with peer := some .blank } p.bytes.flowId c =
            s.findOrCreate p.bytes.flowId c := rfl
        rw [SendPath.admitFlow, hfind, SendPath.admitFlow]
        cases s.findOrCreate p.bytes.flowId c <;> rfl
      rw [hsame]
      simpa [hpeer, hconnects, SendPeer.stops, SendPeer.blank] using hout
    · exact h

theorem SendPath.Fitting.submit (h : s.Fitting) {m : Submission} {flush own : Choices}
    {left : Bool} (hmeasured : s.Measured (.send m flush own left)) :
    (s.submit m flush own left).Fitting := by
  rw [SendPath.submit]
  split
  · exact h
  next bytes hbytes =>
  split
  · exact h
  next hfree =>
  have hbuilt := buildPacket_built hbytes
  have hoffer : (s.offerToBatch ⟨bytes, [m.message]⟩ m.secured flush left).1.Fitting :=
    Keeps.offerToBatch h (fitting_rules s.peer)
      (fun _ _ _ _ hsecure => mayOpen_fitting (built_ne_nil hbytes) hsecure)
      (mayJoin_fitting h.batches) left
  rw [sendPacket]
  split
  · exact hoffer
  next hown =>
  by_cases hout : m.target.isSome = true ∧
      ¬ (s.offerToBatch ⟨bytes, [m.message]⟩ m.secured flush left).1.Enters ⟨bytes, [m.message]⟩
        m.secured m.retained own
  · have hsecure : bytes.isSecure = true := by
      rw [hbuilt.secure_eq, decide_eq_true_eq]
      exact hbuilt.flow_secure hout.1
    exact hoffer.preProcessOut_refused (hbuilt.hasFlow_eq.trans hout.1) hsecure hout.2
  · have hfits : FlowFits bytes := by
      refine flowFits_of_built hbytes fun htarget => ?_
      refine hmeasured bytes hbytes htarget (by simpa using hfree) hown ?_
      exact not_not.mp fun hnot => hout ⟨htarget, hnot⟩
    exact Keeps.preProcessOut hoffer (fitting_rules _) (fun _ _ _ _ => hfits) (fun _ _ => hfits)
      (fun _ => hfits)

theorem SendPath.Fitting.step (timers : FlowTimers) {e : SendEvent}
    (hmeasured : s.Measured e) (h : s.Fitting) : (s.step timers e).Fitting := by
  cases e with
  | send m flush own left => exact h.submit hmeasured
  | sendDetached flush own left =>
    refine Keeps.step timers h (fitting_rules s.peer) ?_
    intro pp authenticated rest hdetached _ hp
    exact ⟨fun _ _ _ _ hsecure => mayOpen_fitting hp.ne_nil hsecure, mayJoin_fitting h.batches,
      fun _ _ _ _ => hp, fun _ _ => hp, fun _ => hp⟩
  | _ => exact Keeps.step timers h (fitting_rules s.peer) trivial

theorem sealAs_length (suite : CipherSuite) (kind : SealKind) (controller : UInt8)
    (body : List UInt8) (m : PeerSendMaterials) :
    (sealAs suite kind controller body m).length =
      wireSecureHeadSize + (tagField controller m.tag).length + body.length + wireTagSize := by
  cases kind with
  | encrypted => exact sealSecurePacket_length suite controller body m
  | macOnly => exact sealMacOnlyPacket_length suite controller body m

/-- The kernel takes whatever leaves of a flow packet that fits. -/
theorem FlowFits.kernelAccepts {d : Departure} (h : FlowFits d.packet.bytes)
    (hflow : d.packet.bytes.hasFlow = true) (suite : CipherSuite) (m : PeerSendMaterials) :
    kernelAccepts (d.datagram suite m) := by
  have hsize := h.size hflow
  rw [Wire.kernelAccepts, Departure.datagram]
  cases d.kind with
  | none => exact Nat.le_trans (Nat.le_add_right _ _) hsize
  | some kind =>
    obtain ⟨controller, rest, hbytes⟩ := List.exists_cons_of_ne_nil h.ne_nil
    have htag : (tagField controller m.tag).length ≤ wirePeerTagSize := by
      rw [tagField]
      split
      · exact m.tag.size.le
      · exact Nat.zero_le _
    rw [hbytes] at hsize ⊢
    rw [sealAs_length, tagField_length controller m.tag, List.length_drop]
    simp only [Datagram.controller, List.headD_cons, wireSecureHeadSize, wirePeerTagSize,
      maxWirePacketSize, wireTagSize] at hsize htag ⊢
    omega

/-- In every run whose messages leave room for headers and tag where a flow takes them without a
batch: every body an association holds to resend or to send later, every flow packet parked behind
a handshake and every one that was sealed fits the wire, so that the kernel refuses none for its
size. -/
theorem SendPath.flow_packets_fit (timers : FlowTimers) (es : List SendEvent)
    (hmeasured : Along (SendPath.step timers) SendPath.Measured .initial es) :
    let s := run (SendPath.step timers) .initial es
    (∀ slot p, s.staging slot = some p ∨ s.sendPool slot = some p → p.bytes.hasFlow = true →
      p.bytes.length + wireTagSize ≤ maxWirePacketSize) ∧
    (∀ pp ∈ s.pending, pp.packet.bytes.hasFlow = true →
      pp.packet.bytes.length + wireTagSize ≤ maxWirePacketSize) ∧
    ∀ d ∈ s.departed, d.packet.bytes.hasFlow = true →
      ∀ suite m, kernelAccepts (d.datagram suite m) := by
  have hrun := run_invariant (SendPath.step timers) SendPath.Fitting SendPath.Measured
    (fun s e hmeasured h => h.step timers hmeasured) keeps_initial hmeasured
  refine ⟨?_, ?_, ?_⟩
  · rintro slot p (hp | hp) hflow
    · exact (hrun.staged slot p hp).size hflow
    · exact (hrun.waiting slot p hp).size hflow
  · intro pp hpp hflow
    exact (hrun.parked pp hpp).size hflow
  · intro d hd hflow suite m
    exact (hrun.departed d hd).kernelAccepts hflow suite m

/-- One message of `n` bytes on a flow to a peer with a session. -/
def oneMessage (n : ℕ) : List SendEvent :=
  [.connect, .complete true,
    .send (flowMessage (List.replicate n 0) .encrypted false) (easyChoices 0) (easyChoices 0) true]

/-- The longest content that fits, and a longer one after it that the open batch refuses. -/
def longMessages : List SendEvent :=
  oneMessage 1167 ++ [.send (flowMessage (List.replicate 1175 0) .encrypted false) (easyChoices 1)
    (easyChoices 1) true]

/-- The first leaves in a datagram of the largest size. -/
theorem SendPath.flow_packets_fit_longest :
    (∃ d ∈ (run (SendPath.step easyTimers) .initial longMessages).departed,
      d.packet.bytes.hasFlow = true ∧ d.packet.bytes.length + wireTagSize = maxWirePacketSize) ∧
    ∀ d ∈ (run (SendPath.step easyTimers) .initial longMessages).departed,
      d.packet.bytes.hasFlow = true → ∀ suite m, kernelAccepts (d.datagram suite m) :=
  ⟨by decide +kernel, (SendPath.flow_packets_fit easyTimers _ (by decide +kernel)).2.2⟩

/-- The builder takes eight bytes more: the packet gets sequence 1 of the flow and stays in
staging to be resent, and the kernel refuses it every time. -/
theorem SendPath.oversized_packet_stamped :
    (∃ p, (run (SendPath.step easyTimers) .initial (oneMessage 1175)).staging 0 = some p ∧
      p.bytes.flowSeq = 1) ∧
    ∃ d ∈ (run (SendPath.step easyTimers) .initial (oneMessage 1175)).departed,
      d.packet.bytes.flowSeq = 1 ∧
        ¬ kernelAccepts (d.datagram .transparent ⟨[], [], [], 1, 0, zeroTag⟩) := by
  decide +kernel

end BcpFlux.Socket
