import BcpFlux.Transfer.Placement

/-! # Answering for a completed transfer

A sender whose acknowledgements were lost keeps resending.  As long as the receiver's
directory holds the completed transfer, the second arrival at the latest is answered,
and the answer resolves everything the sender still has outstanding.
-/

namespace BcpFlux.Transfer
open Library Peer

namespace InTransfer

variable {t : InTransfer}

theorem onData_recvNext_le (h : t.recvNext ≤ t.packetCount) (seq : ℕ)
    (payload : List UInt8) : (t.onData seq payload).2.1.recvNext ≤ t.packetCount := by
  rcases onData_cases t seq payload with ⟨heq, -⟩ | ⟨dest, _, _, _, _, _, _, _, heq⟩
  · rw [heq]
    exact h
  · have hwalk := walk_le transferWindow (t.packetCount - t.recvNext)
      (put transferWindow t.placedBits seq true) t.recvNext
    rw [heq, place_recvNext, arrived_placeWalk, placeWalk]
    omega

theorem onData_complete (hle : t.recvNext ≤ t.packetCount)
    (h : t.complete = true → t.recvNext = t.packetCount) {seq : ℕ} {payload : List UInt8}
    (hdone : (t.onData seq payload).2.1.complete = true) :
    (t.onData seq payload).2.1.recvNext = t.packetCount := by
  apply le_antisymm (onData_recvNext_le hle seq payload)
  rcases onData_cases t seq payload with ⟨heq, -⟩ | ⟨dest, _, hopen, _, _, _, _, _, heq⟩
  · rw [heq] at hdone ⊢
    exact (h hdone).ge
  · rw [heq] at hdone ⊢
    rw [(place_complete _ dest seq payload).1] at hdone
    rw [place_recvNext]
    simpa [hopen] using hdone

theorem onData_of_complete (hdone : t.complete = true) (seq : ℕ)
    (payload : List UInt8) :
    (t.onData seq payload).2.1.complete = true ∧
      (t.onData seq payload).2.1.recvNext = t.recvNext ∧
      (t.onData seq payload).2.1.sinceAck = u32 (t.sinceAck + 1) := by
  rcases onData_cases t seq payload with ⟨heq, -⟩ | ⟨dest, _, hopen, _⟩
  · rw [heq]
    exact ⟨hdone, rfl, rfl⟩
  · rw [hdone] at hopen
    cases hopen

theorem answerDebt_emits (h : 2 ≤ t.sinceAck) :
    Packet.ack t.transferId t.recvNext ((List.range transferWindow).map t.ackBitmap) ∈
      t.answerDebt.2 := by
  have howed : (t.ackOwed || decide (ackEveryPackets ≤ t.sinceAck)) = true := by
    rw [Bool.or_eq_true, decide_eq_true_eq]
    exact .inr h
  rw [answerDebt, takeAckDebt, if_pos howed]
  exact List.mem_singleton_self _

theorem answerDebt_cases (t : InTransfer) :
    t.answerDebt.2 ≠ [] ∧ t.answerDebt.1.sinceAck = 0 ∨
      t.answerDebt.2 = [] ∧ t.answerDebt.1.sinceAck = t.sinceAck ∧ t.sinceAck < 2 := by
  unfold answerDebt takeAckDebt
  split
  · exact .inl ⟨List.cons_ne_nil _ _, rfl⟩
  · next hsmall =>
    rw [Bool.or_eq_true, not_or, decide_eq_true_eq] at hsmall
    exact .inr ⟨rfl, rfl, Nat.lt_of_not_le hsmall.2⟩

/-- What every record of a transfer of `count` packets satisfies between arrivals. -/
structure Sized (count : ℕ) (t : InTransfer) : Prop where
  packetCount_eq : t.packetCount = count
  cursor_le : t.recvNext ≤ t.packetCount
  complete : t.complete = true → t.recvNext = t.packetCount
  debt_lt : t.sinceAck < 2

theorem Sized.of_debt {count : ℕ} (hcount : t.packetCount = count)
    (hle : t.recvNext ≤ t.packetCount) (hdone : t.complete = true → t.recvNext = t.packetCount) :
    Sized count t.answerDebt.1 := by
  have hdebt : t.answerDebt.1.sinceAck < 2 := by
    rcases t.answerDebt_cases with ⟨-, hzero⟩ | ⟨-, hsame, hlt⟩ <;> omega
  rw [t.answerDebt_eq] at hdebt ⊢
  exact ⟨hcount, hle, hdone, hdebt⟩

theorem Sized.onData {count : ℕ} (h : Sized count t) (seq : ℕ)
    (payload : List UInt8) : Sized count (t.onData seq payload).2.1.answerDebt.1 := by
  apply Sized.of_debt
  · rw [onData_packetCount, h.packetCount_eq]
  · rw [onData_packetCount]
    exact onData_recvNext_le h.cursor_le seq payload
  · intro hdone
    rw [onData_packetCount]
    exact onData_complete h.cursor_le h.complete hdone

end InTransfer

namespace Link

/-- Both ends count the same packets, whatever use of the id the receiver is in. -/
structure Sized (l : Link) : Prop where
  count_eq : l.sender.packetCount = packetsFor l.sender.length
  next_le : l.sender.nextSeq ≤ l.sender.packetCount
  record : ∀ t, l.receiver.record = some t → t.Sized l.sender.packetCount
  announced : ∀ id length stride, .announce id length stride ∈ l.net → length = l.sender.length

theorem sized_start (peerSlot : ℕ) (peerAddr : Address) (transferId : ℕ) (source : ℕ → UInt8)
    (length fromSlot : ℕ) (fromAddr : Address) (maxTransferBytes : ℕ) :
    (start (.start peerSlot peerAddr transferId source length) fromSlot fromAddr
      maxTransferBytes).Sized where
  count_eq := rfl
  next_le := Nat.zero_le _
  record t h := by cases h
  announced _ _ _ h := by cases h

section Sized
variable {l : Link}

theorem Sized.pass (h : l.Sized) (peer : PeerBudget) (queued : ℕ) (times : Intervals) (now : ℕ) :
    (l.pass peer queued times now).Sized := by
  have hterms := pass_terms l peer queued times now
  obtain ⟨-, hlength, hcount⟩ := terms_eq_iff.mp hterms
  have hturn : ((Turn.fresh peer l.sender queued).run times now).out.nextSeq ≤ l.sender.packetCount ∧
      terms ((Turn.fresh peer l.sender queued).run times now).out = terms l.sender ∧
      ∀ id length stride,
        .announce id length stride ∈ ((Turn.fresh peer l.sender queued).run times now).packets →
        length = l.sender.length := by
    apply Turn.run_induction (fun t => t.out.nextSeq ≤ l.sender.packetCount ∧
      terms t.out = terms l.sender ∧
      ∀ id length stride, .announce id length stride ∈ t.packets → length = l.sender.length) now
    · rintro t t' hsends ⟨hnext, ht, hann⟩
      cases hsends with
      | nothing hout hpackets => rw [hout, hpackets]; exact ⟨hnext, ht, hann⟩
      | announced hout hpackets =>
        rw [hout, hpackets]
        refine ⟨hnext, ht, ?_⟩
        intro id length stride hmem
        rcases List.mem_append.mp hmem with hold | hnew
        · exact hann id length stride hold
        · cases List.mem_singleton.mp hnew
          exact (terms_eq_iff.mp ht).2.1
      | unanswered hout hpackets => rw [hout, hpackets]; exact ⟨hnext, ht, hann⟩
      | resent seq _ _ _ hout hpackets =>
        rw [hout, hpackets]
        refine ⟨hnext, ht, ?_⟩
        intro id length stride hmem
        rcases List.mem_append.mp hmem with hold | hnew
        · exact hann id length stride hold
        · cases List.mem_singleton.mp hnew
      | sent hroom _ hout hpackets =>
        rw [hout, hpackets]
        refine ⟨hroom.trans_eq (terms_eq_iff.mp ht).2.2, ht, ?_⟩
        intro id length stride hmem
        rcases List.mem_append.mp hmem with hold | hnew
        · exact hann id length stride hold
        · cases List.mem_singleton.mp hnew
    · exact ⟨h.next_le, rfl, fun _ _ _ hmem => by cases hmem⟩
  constructor
  · rw [hcount, hlength, h.count_eq]
  · rw [hcount]
    exact hturn.1
  · intro t ht
    rw [hcount]
    exact h.record t ht
  · intro id length stride hmem
    rw [hlength]
    rcases List.mem_append.mp hmem with hold | hnew
    · exact h.announced id length stride hold
    · exact hturn.2.2 id length stride hnew

theorem Sized.heed (h : l.Sized) (now : ℕ) (p : Packet) : (l.heed now p).Sized := by
  obtain ⟨-, hlength, hcount⟩ := terms_eq_iff.mp (heed_terms l now p)
  have hnext : (l.heed now p).sender.nextSeq = l.sender.nextSeq := by
    cases p with
    | announce => rfl
    | data => rfl
    | ack id recvNext bitmap =>
      exact congrArg (fun f => f.2.2.2.2.2.2.1) (l.sender.onAck_frame now recvNext bitmap)
    | reject =>
      rw [Link.heed, heedReject, l.sender.onRefused_eq]
  have hreceiver : (l.heed now p).receiver = l.receiver := by cases p <;> rfl
  have hnet : (l.heed now p).net = l.net := by cases p <;> rfl
  constructor
  · rw [hcount, hlength, h.count_eq]
  · rw [hnext, hcount]
    exact h.next_le
  · rw [hreceiver, hcount]
    exact h.record
  · rw [hnet, hlength]
    exact h.announced

theorem Sized.reply (h : l.Sized) {n : ℕ} {t : InTransfer}
    (ht : t.answerDebt.1.Sized l.sender.packetCount) : ({ l with uses := n }.reply t).Sized where
  count_eq := h.count_eq
  next_le := h.next_le
  record := by
    rintro _ ⟨⟩
    exact ht
  announced id length stride hmem := by
    rcases List.mem_append.mp hmem with hold | hnew
    · exact h.announced id length stride hold
    · cases InTransfer.mem_answerDebt hnew

theorem Sized.hear (h : l.Sized) {p : Packet} (hp : p ∈ l.net) (room : Bool) :
    (l.hear room p).Sized := by
  cases p with
  | announce id length stride =>
    rw [Link.hear, hearAnnounce]
    split
    · exact h
    split
    · next t hlive =>
      have ht := h.record t (by rw [hlive]; rfl)
      exact h.reply (.of_debt ht.packetCount_eq ht.cursor_le ht.complete)
    split
    · have hcount : packetsFor length = l.sender.packetCount := by
        rw [h.announced id length stride hp, h.count_eq]
      exact h.reply (.of_debt hcount (Nat.zero_le _) (fun hdone => by cases hdone))
    · exact h
  | data id seq payload =>
    rw [Link.hear, hearData]
    split
    · next t hlive => exact h.reply ((h.record t (by rw [hlive]; rfl)).onData seq payload)
    · exact h
  | ack => exact h
  | reject => exact h

theorem Sized.step (h : l.Sized) (e : Event) : (l.step e).Sized := by
  cases e with
  | pass peer queued times now =>
    rw [Link.step]
    split
    · exact h.pass peer queued times now
    · exact h
  | arrive p room =>
    rw [Link.step]
    split
    · next hp => exact h.hear hp room
    · exact h
  | answer p now =>
    rw [Link.step]
    split
    · exact h.heed now p
    · exact h
  | allow =>
    rw [Link.step, Link.allow]
    split
    · next t hlive =>
      have ht := h.record t (by rw [hlive]; rfl)
      refine ⟨h.count_eq, h.next_le, ?_, h.announced⟩
      rintro _ ⟨⟩
      rw [t.allow_eq]
      exact ⟨ht.packetCount_eq, ht.cursor_le, ht.complete, ht.debt_lt⟩
    · exact h
  | complete =>
    rw [Link.step, Link.complete]
    split
    · next t hlive =>
      split
      · exact ⟨h.count_eq, h.next_le, fun t' ht' => h.record t' (by rw [hlive]; exact ht'),
          h.announced⟩
      · exact h
    · exact h
  | reject =>
    have hnet : ∀ id length stride,
        Packet.announce id length stride ∈ l.net ++ [.reject l.sender.transferId] →
        length = l.sender.length := by
      intro id length stride hmem
      rcases List.mem_append.mp hmem with hold | hnew
      · exact h.announced id length stride hold
      · cases List.mem_singleton.mp hnew
    rw [Link.step, Link.reject]
    split
    · next t hlive =>
      exact ⟨h.count_eq, h.next_le, fun t' ht' => h.record t' (by rw [hlive]; exact ht'), hnet⟩
    · exact ⟨h.count_eq, h.next_le, h.record, hnet⟩
  | drain =>
    rw [Link.step, Link.drain]
    split
    · exact ⟨h.count_eq, h.next_le, h.record, h.announced⟩
    · exact h

theorem run_sized (h : l.Sized) (events : List Event) : (run Link.step l events).Sized :=
  run_invariant Link.step Sized (fun _ _ => True) (fun _ e _ hl => hl.step e) h
    (along_true Link.step l events)

end Sized

/-! ## Packets are never taken back -/

theorem hear_net (l : Link) (room : Bool) (p : Packet) : ∃ more, (l.hear room p).net = l.net ++ more := by
  cases p with
  | announce id length stride =>
    rw [hear, hearAnnounce]
    split
    · exact ⟨[], (List.append_nil _).symm⟩
    split
    · exact ⟨_, rfl⟩
    split
    · exact ⟨_, rfl⟩
    · exact ⟨[], (List.append_nil _).symm⟩
  | data id seq payload =>
    rw [hear, hearData]
    split
    · exact ⟨_, rfl⟩
    · exact ⟨[], (List.append_nil _).symm⟩
  | ack => exact ⟨[], (List.append_nil _).symm⟩
  | reject => exact ⟨[], (List.append_nil _).symm⟩

theorem step_net (l : Link) (e : Event) : ∃ more, (l.step e).net = l.net ++ more := by
  have hsame : ∃ more, l.net = l.net ++ more := ⟨[], (List.append_nil _).symm⟩
  cases e with
  | pass peer queued times now =>
    rw [step]
    split
    · exact ⟨_, rfl⟩
    · exact hsame
  | arrive p room =>
    rw [step]
    split
    · exact hear_net l room p
    · exact hsame
  | answer p now =>
    rw [step]
    split
    · cases p <;> exact hsame
    · exact hsame
  | allow => rw [step, allow]; split <;> exact hsame
  | complete =>
    rw [step, complete]
    split
    · split <;> exact hsame
    · exact hsame
  | reject => rw [step, reject]; dsimp only; split <;> exact ⟨_, rfl⟩
  | drain => rw [step, drain]; split <;> exact hsame

/-- An acknowledgement of the whole transfer was sent after `base`. -/
def Answered (base : List Packet) (l : Link) : Prop :=
  ∃ sent id bitmap, l.net = base ++ sent ∧ .ack id l.sender.packetCount bitmap ∈ sent

variable {l : Link}

theorem Answered.step {base : List Packet} (h : Answered base l) (e : Event) :
    Answered base (l.step e) := by
  obtain ⟨sent, id, bitmap, hnet, hmem⟩ := h
  obtain ⟨more, hmore⟩ := step_net l e
  have hcount := (terms_eq_iff.mp (step_terms l e)).2.2
  refine ⟨sent ++ more, id, bitmap, ?_, ?_⟩
  · rw [hmore, hnet, List.append_assoc]
  · rw [hcount]
    exact List.mem_append_left _ hmem

/-! ## The second arrival is answered -/

def Held (l : Link) : Prop := ∃ t, l.receiver = .live t

def HeldWhole (l : Link) : Prop := ∃ t, l.receiver = .live t ∧ t.complete = true

instance (l : Link) : Decidable l.Held :=
  match h : l.receiver with
  | .live t => isTrue ⟨t, h⟩
  | .absent => isFalse fun ⟨t, ht⟩ => by rw [h] at ht; cases ht
  | .ended _ => isFalse fun ⟨t, ht⟩ => by rw [h] at ht; cases ht

instance (l : Link) : Decidable l.HeldWhole :=
  match h : l.receiver with
  | .live t => decidable_of_iff (t.complete = true)
      ⟨fun hdone => ⟨t, h, hdone⟩, fun ⟨_, ht, hdone⟩ => by rw [h] at ht; cases ht; exact hdone⟩
  | .absent => isFalse fun ⟨t, ht, _⟩ => by rw [h] at ht; cases ht
  | .ended _ => isFalse fun ⟨t, ht, _⟩ => by rw [h] at ht; cases ht

section Waiting
variable {base : List Packet} {l : Link}

/-- The live record is complete, and an answer has gone out since `base` or one arrival is
already counted towards it. -/
structure Waiting (base : List Packet) (l : Link) : Prop where
  since : ∃ sent, l.net = base ++ sent
  due : ∀ t, l.receiver = .live t → t.complete = true ∧ (Answered base l ∨ 1 ≤ t.sinceAck)

variable {t : InTransfer}

/-- What the record answers after an arrival reports the end of the transfer. -/
theorem reply_answers (hsince : ∃ sent, l.net = base ++ sent)
    (hcount : t.packetCount = l.sender.packetCount) (hend : t.recvNext = t.packetCount)
    (hanswer : t.answerDebt.2 ≠ []) : Answered base (l.reply t) := by
  obtain ⟨sent, hnet⟩ := hsince
  obtain ⟨p, hp⟩ := List.exists_mem_of_ne_nil _ hanswer
  have hack := InTransfer.mem_answerDebt hp
  refine ⟨sent ++ t.answerDebt.2, t.transferId, (List.range transferWindow).map t.ackBitmap, ?_, ?_⟩
  · rw [Link.reply, hnet, List.append_assoc]
  · apply List.mem_append_right
    rw [Link.reply, ← hcount, ← hend, ← hack]
    exact hp

theorem reply_waiting (hsince : ∃ sent, l.net = base ++ sent)
    (hcount : t.packetCount = l.sender.packetCount) (hend : t.recvNext = t.packetCount)
    (hdone : t.complete = true) (hdue : Answered base l ∨ 1 ≤ t.sinceAck) :
    Waiting base (l.reply t) := by
  obtain ⟨sent, hnet⟩ := hsince
  constructor
  · exact ⟨sent ++ t.answerDebt.2, by rw [Link.reply, hnet, List.append_assoc]⟩
  · rintro _ ⟨⟩
    constructor
    · rw [t.answerDebt_eq]
      exact hdone
    · rcases t.answerDebt_cases with ⟨hanswer, -⟩ | ⟨-, hsame, -⟩
      · exact .inl (reply_answers ⟨sent, hnet⟩ hcount hend hanswer)
      · rcases hdue with ⟨sent', id, bitmap, hnet', hmem⟩ | hdebt
        · refine .inl ⟨sent' ++ t.answerDebt.2, id, bitmap, ?_, List.mem_append_left _ hmem⟩
          rw [Link.reply, hnet', List.append_assoc]
        · rw [hsame]
          exact .inr hdebt

theorem Waiting.hear (h : Waiting base l) (hsized : l.Sized) (hheld : l.Held) (room : Bool)
    (p : Packet) : Waiting base (l.hear room p) := by
  obtain ⟨t, hlive⟩ := hheld
  have ht := hsized.record t (by rw [hlive]; rfl)
  obtain ⟨hdone, hdue⟩ := h.due t hlive
  have hend := ht.complete hdone
  cases p with
  | announce id length stride =>
    rw [Link.hear, hearAnnounce, hlive]
    split
    · exact h
    · exact reply_waiting h.since ht.packetCount_eq hend hdone hdue
  | data id seq payload =>
    rw [Link.hear, hearData, hlive]
    obtain ⟨hdone', hcursor, hdebt⟩ := InTransfer.onData_of_complete hdone seq payload
    apply reply_waiting h.since
    · rw [InTransfer.onData_packetCount, ht.packetCount_eq]
    · rw [hcursor, InTransfer.onData_packetCount, hend]
    · exact hdone'
    · refine .inr ?_
      have := ht.debt_lt
      rw [hdebt, u32, Nat.mod_eq_of_lt (by omega)]
      omega
  | ack => exact h
  | reject => exact h

/-- While the directory holds the transfer, no step loses the debt. -/
theorem Waiting.step (h : Waiting base l) (hsized : l.Sized) (hheld : l.Held) (e : Event) :
    Waiting base (l.step e) := by
  have hsince : ∃ sent, (l.step e).net = base ++ sent := by
    obtain ⟨sent, hnet⟩ := h.since
    obtain ⟨more, hmore⟩ := step_net l e
    exact ⟨sent ++ more, by rw [hmore, hnet, List.append_assoc]⟩
  -- a step that leaves the receiver alone keeps both sides of the debt
  have hkeep : (l.step e).receiver = l.receiver → Waiting base (l.step e) := by
    intro hreceiver
    refine ⟨hsince, ?_⟩
    intro t ht
    rw [hreceiver] at ht
    obtain ⟨hdone, hdue⟩ := h.due t ht
    exact ⟨hdone, hdue.imp_left fun hanswered => hanswered.step e⟩
  cases e with
  | pass peer queued times now => apply hkeep; rw [Link.step]; split <;> rfl
  | arrive p room =>
    rw [Link.step]
    split
    · exact h.hear hsized hheld room p
    · exact h
  | answer p now =>
    apply hkeep
    rw [Link.step]
    split
    · cases p <;> rfl
    · rfl
  | allow =>
    obtain ⟨t, hlive⟩ := hheld
    refine ⟨hsince, ?_⟩
    intro t' ht'
    rw [Link.step, Link.allow, hlive] at ht'
    cases ht'
    obtain ⟨hdone, hdue⟩ := h.due t hlive
    rw [t.allow_eq]
    exact ⟨hdone, hdue.imp_left fun hanswered => hanswered.step .allow⟩
  | complete =>
    obtain ⟨t, hlive⟩ := hheld
    refine ⟨hsince, ?_⟩
    intro t' ht'
    rw [Link.step, Link.complete, hlive] at ht'
    dsimp only at ht'
    rw [if_pos (h.due t hlive).1] at ht'
    cases ht'
  | reject =>
    obtain ⟨t, hlive⟩ := hheld
    refine ⟨hsince, ?_⟩
    intro t' ht'
    rw [Link.step, Link.reject] at ht'
    rw [hlive] at ht'
    cases ht'
  | drain => apply hkeep; rw [Link.step, Link.drain]; split <;> rfl

theorem Sized.first_arrival (hsized : l.Sized) (hlive : l.receiver = .live t)
    (hdone : t.complete = true) (seq : ℕ) (payload : List UInt8) :
    Waiting l.net (l.hearData seq payload) := by
  have ht := hsized.record t (by rw [hlive]; rfl)
  obtain ⟨hdone', hcursor, hdebt⟩ := InTransfer.onData_of_complete hdone seq payload
  rw [hearData, hlive]
  apply reply_waiting ⟨[], (List.append_nil _).symm⟩
  · rw [InTransfer.onData_packetCount, ht.packetCount_eq]
  · rw [hcursor, InTransfer.onData_packetCount, ht.complete hdone]
  · exact hdone'
  · refine .inr ?_
    have := ht.debt_lt
    rw [hdebt, u32, Nat.mod_eq_of_lt (by omega)]
    omega

theorem Waiting.second_arrival (h : Waiting base l) (hsized : l.Sized) (hheld : l.Held) (seq : ℕ)
    (payload : List UInt8) : Answered base (l.hearData seq payload) := by
  obtain ⟨t, hlive⟩ := hheld
  have ht := hsized.record t (by rw [hlive]; rfl)
  obtain ⟨hdone, hdue⟩ := h.due t hlive
  obtain ⟨-, hcursor, hdebt⟩ := InTransfer.onData_of_complete hdone seq payload
  rw [hearData, hlive]
  dsimp only
  rcases hdue with ⟨sent, id, bitmap, hnet, hmem⟩ | hone
  · refine ⟨sent ++ (t.onData seq payload).2.1.answerDebt.2, id, bitmap, ?_,
      List.mem_append_left _ hmem⟩
    rw [reply, hnet, List.append_assoc]
  · apply reply_answers h.since
    · rw [InTransfer.onData_packetCount, ht.packetCount_eq]
    · rw [hcursor, InTransfer.onData_packetCount, ht.complete hdone]
    · apply List.ne_nil_of_mem
      apply InTransfer.answerDebt_emits
      have := ht.debt_lt
      rw [hdebt, u32, Nat.mod_eq_of_lt (by omega)]
      omega

end Waiting

/-- An acknowledgement of the whole transfer resolves everything the sender keeps. -/
theorem Sized.final_ack (h : l.Sized) (bitmap : List Bool) (now n : ℕ)
    (hn : l.sender.contiguousAcked ≤ n) (hlt : n < l.sender.nextSeq) :
    (l.heedAck l.sender.packetCount bitmap now).sender.stamp n = 0 := by
  have hnext := h.next_le
  rw [heedAck, OutTransfer.onAck_stamp, min_self, if_pos]
  apply List.mem_map_of_mem
  apply List.mem_append_left
  rw [List.mem_range'_1]
  omega

/-- The packet is a data packet the network can deliver. -/
def Arrives (l : Link) : Event → Prop
  | .arrive (.data id seq payload) _ => .data id seq payload ∈ l.net
  | _ => False

instance (l : Link) : DecidablePred l.Arrives
  | .arrive (.data id seq payload) _ => inferInstanceAs (Decidable (Packet.data id seq payload ∈ l.net))
  | .arrive (.announce ..) _ | .arrive (.ack ..) _ | .arrive (.reject ..) _ | .pass .. | .answer ..
  | .allow | .complete | .reject | .drain => inferInstanceAs (Decidable False)

theorem Arrives.step_eq {e : Event} (h : l.Arrives e) :
    ∃ seq payload, l.step e = l.hearData seq payload := by
  unfold Arrives at h
  split at h
  · next id seq payload room => exact ⟨seq, payload, if_pos h⟩
  · exact h.elim

/-- A completed transfer the receiver's directory still holds: after two arrivals of its data
packets, whatever happens in between, an acknowledgement of the whole transfer has gone out,
and whenever it is delivered it resolves every sequence the sender has outstanding. -/
theorem completed_transfer_answers (peerSlot : ℕ) (peerAddr : Address) (transferId : ℕ)
    (source : ℕ → UInt8) (length fromSlot : ℕ) (fromAddr : Address) (maxTransferBytes : ℕ)
    (events mid : List Event) (first second : Event) :
    let l := run step (start (.start peerSlot peerAddr transferId source length) fromSlot fromAddr
      maxTransferBytes) events
    let l' := run step (l.step first) mid
    l.HeldWhole → l.Arrives first →
    Along step (fun s _ => s.Held) (l.step first) mid → l'.Held → l'.Arrives second →
    ∃ sent id bitmap, (l'.step second).net = l.net ++ sent ∧
      .ack id (packetsFor length) bitmap ∈ sent ∧
      ∀ later now n,
        let u := run step (l'.step second) later
        u.sending = true → u.sender.contiguousAcked ≤ n → n < u.sender.nextSeq →
        (u.step (.answer (.ack id (packetsFor length) bitmap) now)).sender.stamp n = 0 := by
  rintro l l' ⟨t, hlive, hdone⟩ hfirst hheld hheld' hsecond
  have hsized : l.Sized := run_sized (sized_start peerSlot peerAddr transferId source length fromSlot
    fromAddr maxTransferBytes) events
  have hcount : l.sender.packetCount = packetsFor length :=
    (terms_eq_iff.mp (run_terms (start (.start peerSlot peerAddr transferId source length) fromSlot
      fromAddr maxTransferBytes) events)).2.2
  obtain ⟨seq, payload, heq⟩ := hfirst.step_eq
  obtain ⟨seq', payload', heq'⟩ := hsecond.step_eq
  have hwaiting : Waiting l.net l' ∧ l'.Sized := by
    apply run_invariant step (fun s => Waiting l.net s ∧ s.Sized) (fun s _ => s.Held) ?_ ?_ hheld
    · rintro s e hs ⟨hw, hsz⟩
      exact ⟨hw.step hsz hs e, hsz.step e⟩
    · exact ⟨heq ▸ hsized.first_arrival hlive hdone seq payload, hsized.step first⟩
  have hanswered : Answered l.net (l'.step second) := by
    rw [heq']
    exact hwaiting.1.second_arrival hwaiting.2 hheld' seq' payload'
  obtain ⟨sent, id, bitmap, hnet, hmem⟩ := hanswered
  have hcount' : (l'.step second).sender.packetCount = packetsFor length := by
    rw [← hcount, (terms_eq_iff.mp (step_terms l' second)).2.2,
      (terms_eq_iff.mp (run_terms (l.step first) mid)).2.2,
      (terms_eq_iff.mp (step_terms l first)).2.2]
  rw [hcount'] at hmem
  refine ⟨sent, id, bitmap, hnet, hmem, ?_⟩
  intro later now n u hsending hle hlt
  have hinnet : Packet.ack id (packetsFor length) bitmap ∈ u.net := by
    apply run_invariant step (fun s => .ack id (packetsFor length) bitmap ∈ s.net)
      (fun _ _ => True) ?_ ?_ (along_true step _ later)
    · intro s e _ hs
      obtain ⟨more, hmore⟩ := step_net s e
      rw [hmore]
      exact List.mem_append_left _ hs
    · rw [hnet]
      exact List.mem_append_right _ hmem
  have hu : u.Sized := run_sized (hwaiting.2.step second) later
  have hcountu : u.sender.packetCount = packetsFor length :=
    (terms_eq_iff.mp (run_terms (l'.step second) later)).2.2.trans hcount'
  rw [step, if_pos ⟨hinnet, hsending⟩, heed, ← hcountu]
  exact hu.final_ack bitmap now n hle hlt

theorem completed_transfer_answers_two_bytes :
    let l := run step (start (.start 0 ⟨[], 0, 0⟩ 5 (fun _ => 7) 2) 0 ⟨[], 0, 0⟩ 100)
      (openingRun 5 2 [7, 7])
    let e := Event.arrive (.data 5 0 [7, 7]) true
    (l.step e).net.length = l.net.length ∧ ∃ sent id bitmap, ((l.step e).step e).net = l.net ++ sent ∧
      .ack id (packetsFor 2) bitmap ∈ sent := by
  refine ⟨by decide +kernel, ?_⟩
  obtain ⟨sent, id, bitmap, hnet, hmem, -⟩ := completed_transfer_answers 0 ⟨[], 0, 0⟩ 5 (fun _ => 7) 2 0
    ⟨[], 0, 0⟩ 100 (openingRun 5 2 [7, 7]) [] (.arrive (.data 5 0 [7, 7]) true)
    (.arrive (.data 5 0 [7, 7]) true) (by decide +kernel) (by decide +kernel) trivial
    (by decide +kernel) (by decide +kernel)
  rw [run_nil] at hnet
  exact ⟨sent, id, bitmap, hnet, hmem⟩

/-- Once the application has called `CompleteTransfer`, two resends are met with silence, and the
sequence stays outstanding at the sender. -/
theorem released_transfer_silent :
    let l := run step (start (.start 0 ⟨[], 0, 0⟩ 5 (fun _ => 7) 2) 0 ⟨[], 0, 0⟩ 100)
      (openingRun 5 2 [7, 7])
    let e := Event.arrive (.data 5 0 [7, 7]) true
    l.HeldWhole ∧ (run step l [.complete, e, e]).net.length = l.net.length ∧
      (run step l [.complete, e, e]).sender.stamp 0 ≠ 0 := by
  decide +kernel

end Link

end BcpFlux.Transfer
