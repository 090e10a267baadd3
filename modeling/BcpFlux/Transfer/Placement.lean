import BcpFlux.Transfer.Link

/-! # Placement is faithful

Whatever the network loses, repeats or reorders, the bytes of a transfer end up where
they were read from, and a transfer that is complete is whole.
-/

namespace BcpFlux.Transfer
open Library Peer

namespace Link

/-! ## The terms of a transfer never change -/

theorem pass_terms (l : Link) (peer : PeerBudget) (queued : ℕ) (times : Intervals) (now : ℕ) :
    terms (l.pass peer queued times now).sender = terms l.sender := by
  apply Turn.run_induction (fun t => terms t.out = terms l.sender) now
  · intro t t' hsends ht
    cases hsends with
    | nothing hout => rw [hout, ht]
    | announced hout => rw [hout]; exact ht
    | unanswered hout => rw [hout]; exact ht
    | resent seq _ _ _ hout => rw [hout]; exact ht
    | sent _ _ hout => rw [hout]; exact ht
  · rfl

theorem heed_terms (l : Link) (now : ℕ) (p : Packet) :
    terms (l.heed now p).sender = terms l.sender := by
  cases p with
  | announce => rfl
  | data => rfl
  | ack id recvNext bitmap =>
    exact congrArg (fun f => (f.2.2.2.1, f.2.2.2.2.1, f.2.2.2.2.2.1))
      (l.sender.onAck_frame now recvNext bitmap)
  | reject =>
    rw [heed, heedReject, l.sender.onRefused_eq]
    rfl

theorem hear_sender (l : Link) (room : Bool) (p : Packet) : (l.hear room p).sender = l.sender := by
  cases p with
  | announce id length stride =>
    rw [hear, hearAnnounce]
    split
    · rfl
    split
    · rfl
    split <;> rfl
  | data id seq payload =>
    rw [hear, hearData]
    split <;> rfl
  | ack => rfl
  | reject => rfl

theorem step_terms (l : Link) (e : Event) : terms (l.step e).sender = terms l.sender := by
  cases e with
  | pass peer queued times now =>
    rw [step]
    split
    · exact pass_terms l peer queued times now
    · rfl
  | arrive p room =>
    rw [step]
    split
    · rw [hear_sender]
    · rfl
  | answer p now =>
    rw [step]
    split
    · exact heed_terms l now p
    · rfl
  | allow => rw [step, allow]; split <;> rfl
  | complete =>
    rw [step, complete]
    split
    · split <;> rfl
    · rfl
  | reject => rw [step, reject]; dsimp only; split <;> rfl
  | drain => rw [step, drain]; split <;> rfl

theorem run_terms (l : Link) (events : List Event) :
    terms (run step l events).sender = terms l.sender := by
  apply run_invariant step (fun l' => terms l'.sender = terms l.sender) (fun _ _ => True) ?_ rfl
    (along_true step l events)
  intro l' e _ h
  rw [step_terms, h]

/-! ## Faithful placement -/

/-- Every data packet that can still arrive is less than a window past the cursor, every
byte written is the source's at the same offset, and a complete transfer is whole if its
packet count fits. -/
structure Faithful (source : ℕ → UInt8) (length : ℕ) (l : Link) (t : InTransfer) : Prop where
  inWindow : ∀ id seq payload, .data id seq payload ∈ l.net → seq < t.recvNext + transferWindow
  bytes : ∀ i b, t.buffer i = some b → i < length ∧ b = source i
  whole : Fits length → t.complete = true → ∀ i < length, t.buffer i = some (source i)

theorem Inv.faithful {l : Link} (h : l.Inv) {t : InTransfer} (ht : l.receiver.record = some t) :
    Faithful l.sender.source l.sender.length l t := by
  have hagrees := h.record t ht
  have hcursor : l.cursor = t.recvNext := by rw [cursor, ht]; rfl
  constructor
  · intro id seq payload hp
    have hsent : seq < l.sender.nextSeq := (h.honest _ hp).1
    have := h.window
    have := h.behind
    omega
  · intro i b hb
    rw [← hagrees.length_eq]
    exact hagrees.counted.inside i b hb
  · intro hfits hdone i hi
    have hcover := hfits.length_le
    rw [← h.count_eq, ← hagrees.packetCount_eq, ← hagrees.counted.complete_iff hdone] at hcover
    obtain ⟨b, hb, rfl⟩ := hagrees.counted.written (i := i) (by omega) (by rwa [hagrees.length_eq])
    exact hb

/-- One transfer over a network that loses, repeats and reorders: in every state of every run in
which the id is in its first use, placement is faithful. -/
theorem placement_faithful (peerSlot : ℕ) (peerAddr : Address) (transferId : ℕ)
    (source : ℕ → UInt8) (length fromSlot : ℕ) (fromAddr : Address) (maxTransferBytes : ℕ)
    (events : List Event) :
    let l := run step (start (.start peerSlot peerAddr transferId source length) fromSlot fromAddr
      maxTransferBytes) events
    l.uses ≤ 1 → ∀ t, l.receiver.record = some t → Faithful source length l t := by
  intro l huses t ht
  have hinv := run_inv (inv_start peerSlot peerAddr transferId source length fromSlot fromAddr
    maxTransferBytes) events huses
  obtain ⟨hsource, hlength, -⟩ : l.sender.source = source ∧ l.sender.length = length ∧ _ :=
    terms_eq_iff.mp (run_terms (start (.start peerSlot peerAddr transferId source length) fromSlot
      fromAddr maxTransferBytes) events)
  have hfaithful := hinv.faithful ht
  rwa [hsource, hlength] at hfaithful

def idlePeer : PeerBudget := ⟨⟨0, 0, 0, 0, 0⟩, 100000, 0, 0, 0, 0, 0, 0⟩

/-- Announcement, `Allow`, acknowledgement and the first pass with data, nothing lost. -/
def opening (transferId length : ℕ) : List Event :=
  [.pass idlePeer 0 ⟨1000, 0⟩ 1, .arrive (.announce transferId length transferStride) true, .allow,
    .answer (.ack transferId 0 (List.replicate transferWindow false)) 2,
    .pass idlePeer 0 ⟨1000, 0⟩ 3]

def openingRun (transferId length : ℕ) (payload : List UInt8) : List Event :=
  opening transferId length ++ [.arrive (.data transferId 0 payload) true]

/-- Two packets, the second before the first. -/
def swapped : List Event :=
  [.arrive (.data 5 1 [7, 7]) true, .arrive (.data 5 0 (List.replicate 1163 7)) true]

theorem placement_faithful_swapped :
    let l := run step (start (.start 0 ⟨[], 0, 0⟩ 5 (fun _ => 7) 1165) 0 ⟨[], 0, 0⟩ 5000)
      (opening 5 1165 ++ swapped)
    (l.receiver.record.map InTransfer.complete = some true ∧ l.uses ≤ 1) ∧
      ∀ t, l.receiver.record = some t → Faithful (fun _ => 7) 1165 l t :=
  ⟨by decide +kernel, placement_faithful 0 ⟨[], 0, 0⟩ 5 (fun _ => 7) 1165 0 ⟨[], 0, 0⟩ 5000
    (opening 5 1165 ++ swapped) (by decide +kernel)⟩

/-- A length whose packet count does not fit wraps it to one: the first packet completes the
transfer, and the byte after it was never written. -/
theorem wrapped_count_completes :
    let l := run step
      (start (.start 0 ⟨[], 0, 0⟩ 5 (fun _ => 7) (2 ^ 32 * 1163 + 1)) 0 ⟨[], 0, 0⟩ (2 ^ 63))
      (openingRun 5 (2 ^ 32 * 1163 + 1) (List.replicate 1163 7))
    l.uses = 1 ∧ l.receiver.record.map (fun t => (t.complete, t.buffer 1163)) =
      some (true, none) := by
  decide +kernel

end Link

end BcpFlux.Transfer
