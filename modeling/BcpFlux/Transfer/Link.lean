import BcpFlux.Transfer.Outgoing
import BcpFlux.Transfer.Robust

/-! # One transfer between two ends

The sender's record, what the receiver's directory holds under the id, and every packet
either end has sent: a packet may arrive never, once or many times and in any order.  What
else the two sockets do, the budget and the room in a pass, or a row and a slot for an
announcement, enters as parameters of the events.

`uses` counts the incoming transfers the receiver has opened on the id.  An announcement
that arrives after the receiver has ended the transfer opens a second one.
-/

namespace BcpFlux.Transfer
open Library Peer

/-- What became of the id at the receiver; the last record stays readable after its end. -/
inductive Receiver where
  | absent
  | live (t : InTransfer)
  | ended (t : InTransfer)

namespace Receiver

def record : Receiver → Option InTransfer
  | .absent => none
  | .live t => some t
  | .ended t => some t

end Receiver

namespace InTransfer

/-- The tail of `Transfer_Data`: an acknowledgement with cursor and bitmap, when owed. -/
def answerDebt (t : InTransfer) : InTransfer × List Packet :=
  let r := t.takeAckDebt
  (r.2, if r.1 then
    [.ack t.transferId r.2.recvNext ((List.range transferWindow).map r.2.ackBitmap)] else [])

end InTransfer

namespace InTransfer

theorem answerDebt_eq (t : InTransfer) : t.answerDebt.1 =
    { t with ackOwed := t.answerDebt.1.ackOwed, sinceAck := t.answerDebt.1.sinceAck } := by
  unfold answerDebt takeAckDebt
  split <;> rfl

/-- The only answer there is: the cursor, and the marks of the window past it. -/
theorem mem_answerDebt {t : InTransfer} {p : Packet} (h : p ∈ t.answerDebt.2) :
    p = .ack t.transferId t.recvNext ((List.range transferWindow).map t.ackBitmap) := by
  unfold answerDebt takeAckDebt at h
  split at h
  · exact List.mem_singleton.mp h
  · simp at h

theorem ackBitmap_getElem {t : InTransfer} {i : ℕ}
    (h : ((List.range transferWindow).map t.ackBitmap)[i]? = some true) :
    i < transferWindow ∧ t.recvNext + i < t.packetCount ∧
      t.placedBits (slot transferWindow (t.recvNext + i)) = true := by
  rw [List.getElem?_map, Option.map_eq_some_iff] at h
  obtain ⟨j, hj, hbit⟩ := h
  obtain ⟨hlt, rfl⟩ := List.getElem?_eq_some_iff.mp hj
  rw [List.getElem_range] at hbit
  simp only [ackBitmap, Bool.and_eq_true, decide_eq_true_eq] at hbit
  exact ⟨hbit.1.1, hbit.1.2, hbit.2⟩

end InTransfer

structure Link where
  sender : OutTransfer
  sending : Bool
  peerSlot : ℕ
  peerAddr : Address
  maxTransferBytes : ℕ
  receiver : Receiver
  uses : ℕ
  refunded : List ℕ
  net : List Packet

namespace Link

def start (sender : OutTransfer) (peerSlot : ℕ) (peerAddr : Address) (maxTransferBytes : ℕ) :
    Link :=
  ⟨sender, true, peerSlot, peerAddr, maxTransferBytes, .absent, 0, [], []⟩

inductive Event where
  | pass (peer : PeerBudget) (queued : ℕ) (times : Intervals) (now : ℕ)
  | arrive (p : Packet) (room : Bool)
  | answer (p : Packet) (now : ℕ)
  | allow
  | complete
  | reject
  | drain

/-- The record handles the rest of an arrival: it may answer. -/
def reply (l : Link) (t : InTransfer) : Link :=
  { l with receiver := .live t.answerDebt.1, net := l.net ++ t.answerDebt.2 }

/-- `OnAnnounce`, then the answer. -/
def hearAnnounce (l : Link) (transferId length stride : ℕ) (room : Bool) : Link :=
  if stride ≠ transferStride ∨ length = 0 ∨ l.maxTransferBytes < length then l
  else
    match l.receiver with
    | .live t => l.reply t
    | _ =>
      if room then
        { l with uses := l.uses + 1 }.reply (.announce l.peerSlot l.peerAddr transferId length)
      else l

/-- `OnData`, then the answer. -/
def hearData (l : Link) (seq : ℕ) (payload : List UInt8) : Link :=
  match l.receiver with
  | .live t => l.reply (t.onData seq payload).2.1
  | _ => l

def hear (l : Link) (room : Bool) : Packet → Link
  | .announce transferId length stride => l.hearAnnounce transferId length stride room
  | .data _ seq payload => l.hearData seq payload
  | _ => l

def heedAck (l : Link) (recvNext : ℕ) (bitmap : List Bool) (now : ℕ) : Link :=
  let r := l.sender.onAck recvNext bitmap now
  { l with sender := r.1, refunded := l.refunded ++ r.2.1.freed }

def heedReject (l : Link) : Link :=
  { l with sender := l.sender.onRefused.1, refunded := l.refunded ++ l.sender.onRefused.2.1 }

def heed (l : Link) (now : ℕ) : Packet → Link
  | .ack _ recvNext bitmap => l.heedAck recvNext bitmap now
  | .reject _ => l.heedReject
  | _ => l

/-- The sender's turn in a pass of its socket. -/
def pass (l : Link) (peer : PeerBudget) (queued : ℕ) (times : Intervals) (now : ℕ) : Link :=
  let t := (Turn.fresh peer l.sender queued).run times now
  { l with sender := t.out, net := l.net ++ t.packets }

def allow (l : Link) : Link :=
  match l.receiver with
  | .live t => { l with receiver := .live t.allow.2 }
  | _ => l

/-- `CompleteTransfer` releases a completed record only. -/
def complete (l : Link) : Link :=
  match l.receiver with
  | .live t => if t.complete then { l with receiver := .ended t } else l
  | _ => l

/-- `RejectTransfer` drops what the directory holds and sends the refusal in any case. -/
def reject (l : Link) : Link :=
  let l := { l with net := l.net ++ [Packet.reject l.sender.transferId] }
  match l.receiver with
  | .live t => { l with receiver := .ended t }
  | _ => l

/-- `PollTransfers` at the sender takes a finished transfer off the directory. -/
def drain (l : Link) : Link :=
  if l.sender.refused ∨ l.sender.packetCount ≤ l.sender.contiguousAcked then
    { l with sending := false }
  else l

def step (l : Link) : Event → Link
  | .pass peer queued times now => if l.sending then l.pass peer queued times now else l
  | .arrive p room => if p ∈ l.net then l.hear room p else l
  | .answer p now => if p ∈ l.net ∧ l.sending then l.heed now p else l
  | .allow => l.allow
  | .complete => l.complete
  | .reject => l.reject
  | .drain => l.drain

/-! ## What the two ends know of each other -/

def cursor (l : Link) : ℕ := (l.receiver.record.map InTransfer.recvNext).getD 0

/-- The receiver has put the packet at `seq` into the buffer, byte for byte. -/
def Placed (l : Link) (seq : ℕ) : Prop :=
  ∃ t, l.receiver.record = some t ∧
    InTransfer.Filled (fun i b => b = l.sender.source i) t.buffer l.sender.length seq

/-- What the packets in the network say is true. -/
def Honest (l : Link) : Packet → Prop
  | .announce _ length _ => length = l.sender.length
  | .data _ seq payload => seq < l.sender.nextSeq ∧ payload = l.sender.payload seq
  | .ack _ recvNext bitmap => recvNext ≤ l.cursor ∧
      ∀ i, bitmap[i]? = some true →
        recvNext + i < l.sender.nextSeq ∧ recvNext + i < l.sender.packetCount ∧
          l.Placed (recvNext + i)
  | .reject _ => True

/-- The receiver's record agrees with the sender's. -/
structure Agrees (sender : OutTransfer) (t : InTransfer) : Prop where
  length_eq : t.length = sender.length
  packetCount_eq : t.packetCount = sender.packetCount
  counted : t.Counted fun i b => b = sender.source i
  sent : Marks transferWindow (· < sender.nextSeq) t.placedBits t.recvNext

/-- The sender never runs a window ahead of the receiver, and both know only true things. -/
structure Inv (l : Link) : Prop where
  count_eq : l.sender.packetCount = packetsFor l.sender.length
  window : l.sender.nextSeq ≤ l.sender.contiguousAcked + transferWindow
  behind : l.sender.contiguousAcked ≤ l.cursor
  absent : l.receiver = .absent ↔ l.uses = 0
  record : ∀ t, l.receiver.record = some t → Agrees l.sender t
  honest : ∀ p ∈ l.net, l.Honest p

theorem inv_start (peerSlot : ℕ) (peerAddr : Address) (transferId : ℕ) (source : ℕ → UInt8)
    (length fromSlot : ℕ) (fromAddr : Address) (maxTransferBytes : ℕ) :
    (start (.start peerSlot peerAddr transferId source length) fromSlot fromAddr
      maxTransferBytes).Inv where
  count_eq := rfl
  window := Nat.zero_le _
  behind := Nat.zero_le _
  absent := ⟨fun _ => rfl, fun _ => rfl⟩
  record t h := by cases h
  honest p h := by cases h

/-! ### The sender moves -/

section Sender
variable {l : Link} {out : OutTransfer} {more : List Packet} {log : List ℕ}

/-- The sender's record, its log and its packets change, the receiver does not. -/
def withSender (l : Link) (out : OutTransfer) (log : List ℕ) (more : List Packet) : Link :=
  { l with sender := out, refunded := log, net := l.net ++ more }

def terms (out : OutTransfer) : (ℕ → UInt8) × ℕ × ℕ := (out.source, out.length, out.packetCount)

theorem terms_eq_iff {a b : OutTransfer} :
    terms a = terms b ↔ a.source = b.source ∧ a.length = b.length ∧ a.packetCount = b.packetCount := by
  rw [terms, terms, Prod.mk.injEq, Prod.mk.injEq]

theorem Agrees.mono {t : InTransfer} (h : Agrees l.sender t) (hterms : terms out = terms l.sender)
    (hnext : l.sender.nextSeq ≤ out.nextSeq) : Agrees out t := by
  obtain ⟨hsource, hlength, hcount⟩ := terms_eq_iff.mp hterms
  constructor
  · rw [h.length_eq, hlength]
  · rw [h.packetCount_eq, hcount]
  · rw [hsource]
    exact h.counted
  · exact h.sent.mono fun n hn => lt_of_lt_of_le hn hnext

theorem Honest.mono {p : Packet} (h : l.Honest p) (hterms : terms out = terms l.sender)
    (hnext : l.sender.nextSeq ≤ out.nextSeq) : (l.withSender out log more).Honest p := by
  obtain ⟨hsource, hlength, hcount⟩ := terms_eq_iff.mp hterms
  cases p with
  | announce id length stride =>
    rw [Honest, withSender, hlength]
    exact h
  | data id seq payload =>
    obtain ⟨hseq, hpayload⟩ := h
    constructor
    · exact lt_of_lt_of_le hseq hnext
    · rw [hpayload, withSender, OutTransfer.payload, OutTransfer.payload, hlength, hsource]
  | ack id recvNext bitmap =>
    refine ⟨h.1, ?_⟩
    intro i hi
    obtain ⟨hnamed, hin, t, ht, hfilled⟩ := h.2 i hi
    refine ⟨lt_of_lt_of_le hnamed hnext, ?_, t, ht, ?_⟩
    · rw [withSender, hcount]
      exact hin
    · rw [withSender, hlength, hsource]
      exact hfilled
  | reject id => trivial

/-- The sender may move its cursor up to the receiver's and its next sequence up to a window
past its cursor, and send what is true. -/
theorem Inv.withSender (h : l.Inv) (hterms : terms out = terms l.sender)
    (hnext : l.sender.nextSeq ≤ out.nextSeq)
    (hwindow : out.nextSeq ≤ out.contiguousAcked + transferWindow)
    (hbehind : out.contiguousAcked ≤ l.cursor)
    (hmore : ∀ p ∈ more, (l.withSender out log more).Honest p) :
    (l.withSender out log more).Inv where
  count_eq := by
    obtain ⟨-, hlength, hcount⟩ := terms_eq_iff.mp hterms
    rw [Link.withSender, hlength, hcount, h.count_eq]
  window := hwindow
  behind := hbehind
  absent := h.absent
  record t ht := (h.record t ht).mono hterms hnext
  honest p hp := by
    rcases List.mem_append.mp hp with hold | hnew
    · exact (h.honest p hold).mono hterms hnext
    · exact hmore p hnew

theorem withSender_append (l : Link) (out out' : OutTransfer) (log : List ℕ)
    (more more' : List Packet) :
    l.withSender out' log (more ++ more') = (l.withSender out log more).withSender out' log more' := by
  simp only [withSender, List.append_assoc]

theorem Inv.sends {t t' : Turn} {now : ℕ} (hsends : Turn.Sends now t t')
    (h : (l.withSender t.out log t.packets).Inv) : (l.withSender t'.out log t'.packets).Inv := by
  cases hsends with
  | nothing hout hpackets _ => rwa [hout, hpackets]
  | announced hout hpackets _ =>
    rw [hout, hpackets, withSender_append l t.out]
    apply h.withSender
    · rfl
    · exact le_rfl
    · exact h.window
    · exact h.behind
    · intro p hp
      rw [List.mem_singleton.mp hp]
      rfl
  | unanswered hout hpackets _ =>
    rw [hout, hpackets, ← List.append_nil t.packets, withSender_append l t.out]
    apply h.withSender
    · rfl
    · exact le_rfl
    · exact h.window
    · exact h.behind
    · intro p hp
      cases hp
  | resent seq hle hlt _ hout hpackets _ =>
    rw [hout, hpackets, withSender_append l t.out]
    apply h.withSender
    · rfl
    · exact le_rfl
    · exact h.window
    · exact h.behind
    · intro p hp
      rw [List.mem_singleton.mp hp]
      exact ⟨hlt, rfl⟩
  | sent hcount hwindow hout hpackets _ =>
    rw [hout, hpackets, withSender_append l t.out]
    apply h.withSender
    · rfl
    · exact Nat.le_succ _
    · exact hwindow
    · exact h.behind
    · intro p hp
      rw [List.mem_singleton.mp hp]
      exact ⟨Nat.lt_succ_self _, rfl⟩

theorem Inv.pass (h : l.Inv) (peer : PeerBudget) (queued : ℕ) (times : Intervals) (now : ℕ) :
    (l.pass peer queued times now).Inv := by
  apply Turn.run_induction (fun t => (l.withSender t.out l.refunded t.packets).Inv) now
  · intro t t' hsends ht
    exact ht.sends hsends
  · apply h.withSender rfl le_rfl h.window h.behind
    intro p hp
    cases hp

theorem Inv.heedAck (h : l.Inv) {recvNext : ℕ} {bitmap : List Bool} (now : ℕ)
    (hcursor : recvNext ≤ l.cursor) : (l.heedAck recvNext bitmap now).Inv := by
  have hframe := l.sender.onAck_frame now recvNext bitmap
  have hnext : (l.sender.onAck recvNext bitmap now).1.nextSeq = l.sender.nextSeq :=
    congrArg (fun f => f.2.2.2.2.2.2.1) hframe
  have hcontig := l.sender.onAck_contiguousAcked now recvNext bitmap
  have hinv : (l.withSender (l.sender.onAck recvNext bitmap now).1
      (l.refunded ++ (l.sender.onAck recvNext bitmap now).2.1.freed) []).Inv := by
    apply h.withSender
    · exact congrArg (fun f => (f.2.2.2.1, f.2.2.2.2.1, f.2.2.2.2.2.1)) hframe
    · exact hnext.ge
    · rw [hnext, hcontig]
      have := h.window
      omega
    · rw [hcontig]
      have := h.behind
      omega
    · intro p hp
      cases hp
  rwa [Link.withSender, List.append_nil] at hinv

theorem Inv.heedReject (h : l.Inv) : l.heedReject.Inv := by
  have heq := l.sender.onRefused_eq
  have hinv : (l.withSender l.sender.onRefused.1 (l.refunded ++ l.sender.onRefused.2.1) []).Inv := by
    apply h.withSender
    · rw [heq]
      rfl
    · rw [heq]
    · rw [heq]
      exact h.window
    · rw [heq]
      exact h.behind
    · intro p hp
      cases hp
  rwa [Link.withSender, List.append_nil] at hinv

theorem Inv.drain (h : l.Inv) : l.drain.Inv := by
  unfold Link.drain
  split
  · exact ⟨h.count_eq, h.window, h.behind, h.absent, h.record, h.honest⟩
  · exact h

end Sender

/-! ### The receiver moves -/

section Receiver
variable {l : Link} {r : Receiver} {n : ℕ} {more : List Packet}

/-- What the directory holds, the number of uses and the packets change, the sender does not. -/
def withReceiver (l : Link) (r : Receiver) (n : ℕ) (more : List Packet) : Link :=
  { l with receiver := r, uses := n, net := l.net ++ more }

/-- The receiver has moved on: a higher cursor, and nothing placed was lost. -/
structure Onward (l l' : Link) : Prop where
  sender : l'.sender = l.sender
  cursor : l.cursor ≤ l'.cursor
  placed : ∀ seq, l.Placed seq → l'.Placed seq

theorem Onward.refl (l : Link) : Onward l l := ⟨rfl, le_rfl, fun _ h => h⟩

theorem Honest.onward {l' : Link} {p : Packet} (h : l.Honest p) (hon : Onward l l') :
    l'.Honest p := by
  cases p with
  | announce id length stride =>
    rw [Honest, hon.sender]
    exact h
  | data id seq payload =>
    rw [Honest, hon.sender]
    exact h
  | ack id recvNext bitmap =>
    rw [Honest, hon.sender]
    refine ⟨h.1.trans hon.cursor, ?_⟩
    intro i hi
    obtain ⟨hnamed, hin, hplaced⟩ := h.2 i hi
    exact ⟨hnamed, hin, hon.placed _ hplaced⟩
  | reject id => trivial

theorem Inv.withReceiver (h : l.Inv) (hon : Onward l (l.withReceiver r n more))
    (habsent : r = .absent ↔ n = 0) (hrecord : ∀ t, r.record = some t → Agrees l.sender t)
    (hmore : ∀ p ∈ more, (l.withReceiver r n more).Honest p) : (l.withReceiver r n more).Inv where
  count_eq := h.count_eq
  window := h.window
  behind := h.behind.trans hon.cursor
  absent := habsent
  record := hrecord
  honest p hp := by
    rcases List.mem_append.mp hp with hold | hnew
    · exact (h.honest p hold).onward hon
    · exact hmore p hnew

/-- A record that agrees with the sender and is no worse than the last one may answer. -/
theorem Inv.reply (h : l.Inv) {t : InTransfer} (hn : n ≠ 0) (ht : Agrees l.sender t)
    (hcursor : l.cursor ≤ t.recvNext)
    (hplaced : ∀ seq, l.Placed seq →
      InTransfer.Filled (fun i b => b = l.sender.source i) t.buffer l.sender.length seq) :
    Onward l ({ l with uses := n }.reply t) ∧ ({ l with uses := n }.reply t).Inv := by
  have hanswer := t.answerDebt_eq
  have hbuffer : t.answerDebt.1.buffer = t.buffer := by rw [hanswer]; rfl
  have hagrees : Agrees l.sender t.answerDebt.1 := by
    rw [hanswer]
    exact ⟨ht.length_eq, ht.packetCount_eq,
      ⟨ht.counted.marks, ht.counted.inside, ht.counted.cursor_le, ht.counted.complete_iff⟩, ht.sent⟩
  have hon : Onward l (l.withReceiver (.live t.answerDebt.1) n t.answerDebt.2) := by
    refine ⟨rfl, ?_, ?_⟩
    · show l.cursor ≤ t.answerDebt.1.recvNext
      rw [hanswer]
      exact hcursor
    · intro seq hseq
      refine ⟨t.answerDebt.1, rfl, ?_⟩
      rw [hbuffer]
      exact hplaced seq hseq
  refine ⟨hon, ?_⟩
  apply h.withReceiver hon
  · simp [hn]
  · rintro _ ⟨⟩
    exact hagrees
  · intro p hp
    rw [InTransfer.mem_answerDebt hp]
    refine ⟨?_, ?_⟩
    · show t.recvNext ≤ t.answerDebt.1.recvNext
      rw [hanswer]
    · intro i hi
      obtain ⟨hlt, hcount, hbit⟩ := InTransfer.ackBitmap_getElem hi
      refine ⟨?_, ?_, t.answerDebt.1, rfl, ?_⟩
      · exact ht.sent.marked _ (Nat.le_add_right _ _) (by omega) hbit
      · exact hcount.trans_eq ht.packetCount_eq
      · rw [hbuffer]
        have hfilled := ht.counted.marks.marked _ (Nat.le_add_right _ _) (by omega) hbit
        rw [ht.length_eq] at hfilled
        exact hfilled

theorem Inv.hearData (h : l.Inv) {seq : ℕ} (hseq : seq < l.sender.nextSeq) :
    Onward l (l.hearData seq (l.sender.payload seq)) ∧
      (l.hearData seq (l.sender.payload seq)).Inv := by
  unfold Link.hearData
  split
  · next t hlive =>
    have hrecord : l.receiver.record = some t := by rw [hlive]; rfl
    have hcursor : l.cursor = t.recvNext := by rw [cursor, hrecord]; rfl
    have ht := h.record t hrecord
    have hwindow : seq < t.recvNext + transferWindow := by
      have := h.window
      have := h.behind
      omega
    have hgood : InTransfer.GoodPayload (fun i b => b = l.sender.source i) seq
        (l.sender.payload seq) := by
      intro k b hk
      simp only [OutTransfer.payload, List.getElem?_map, Option.map_eq_some_iff] at hk
      obtain ⟨j, hj, rfl⟩ := hk
      obtain ⟨_, rfl⟩ := List.getElem?_eq_some_iff.mp hj
      rw [List.getElem_range]
    apply h.reply
    · intro hzero
      rw [h.absent.mpr hzero] at hlive
      cases hlive
    · exact ⟨by rw [InTransfer.onData_length, ht.length_eq],
        by rw [InTransfer.onData_packetCount, ht.packetCount_eq],
        ht.counted.onData (.inl hwindow) hgood, InTransfer.onData_marks ht.sent hwindow hseq⟩
    · rw [hcursor]
      exact t.recvNext_le_onData seq _
    · rintro n ⟨t', ht', hfilled⟩
      obtain rfl : t = t' := Option.some.inj (hrecord.symm.trans ht')
      exact hfilled.onData hgood
  · exact ⟨.refl l, h⟩

theorem Inv.hearAnnounce (h : l.Inv) (transferId stride : ℕ) (room : Bool)
    (hended : ∀ t, l.receiver ≠ .ended t) :
    Onward l (l.hearAnnounce transferId l.sender.length stride room) ∧
      (l.hearAnnounce transferId l.sender.length stride room).Inv := by
  unfold Link.hearAnnounce
  split
  · exact ⟨.refl l, h⟩
  split
  · next t hlive =>
    have hrecord : l.receiver.record = some t := by rw [hlive]; rfl
    apply h.reply
    · intro hzero
      rw [h.absent.mpr hzero] at hlive
      cases hlive
    · exact h.record t hrecord
    · rw [cursor, hrecord]
      rfl
    · rintro n ⟨t', ht', hfilled⟩
      obtain rfl : t = t' := Option.some.inj (hrecord.symm.trans ht')
      exact hfilled
  · next hidle =>
    split
    · have habsent : l.receiver = .absent := by
        cases hr : l.receiver with
        | absent => rfl
        | live t => exact absurd hr (hidle t)
        | ended t => exact absurd hr (hended t)
      apply h.reply
      · exact Nat.succ_ne_zero _
      · exact ⟨rfl, h.count_eq.symm, InTransfer.counted_announce _ _ _ _,
          Marks.empty (by simp [InTransfer.announce])⟩
      · rw [cursor, habsent]
        exact Nat.zero_le _
      · rintro n ⟨t', ht', -⟩
        rw [habsent] at ht'
        cases ht'
    · exact ⟨.refl l, h⟩

theorem Inv.keeps (h : l.Inv) (more : List Packet) {t t' : InTransfer} (hrecord : l.receiver.record = some t)
    (hr : r.record = some t') (hcursor : t'.recvNext = t.recvNext) (hbuffer : t'.buffer = t.buffer)
    (hagrees : Agrees l.sender t') (hmore : ∀ p ∈ more, p = .reject l.sender.transferId) :
    Onward l (l.withReceiver r l.uses more) ∧ (l.withReceiver r l.uses more).Inv := by
  have hon : Onward l (l.withReceiver r l.uses more) := by
    refine ⟨rfl, ?_, ?_⟩
    · rw [cursor, cursor, hrecord, Link.withReceiver, hr]
      exact hcursor.ge
    · rintro seq ⟨t₀, ht₀, hfilled⟩
      obtain rfl : t = t₀ := Option.some.inj (hrecord.symm.trans ht₀)
      refine ⟨t', hr, ?_⟩
      rw [hbuffer]
      exact hfilled
  refine ⟨hon, ?_⟩
  apply h.withReceiver hon
  · have hne : r ≠ .absent := by
      rintro rfl
      cases hr
    have huses : l.uses ≠ 0 := by
      intro hzero
      rw [h.absent.mpr hzero] at hrecord
      cases hrecord
    simp [hne, huses]
  · intro t₀ ht₀
    obtain rfl : t' = t₀ := Option.some.inj (hr.symm.trans ht₀)
    exact hagrees
  · intro p hp
    rw [hmore p hp]
    trivial

theorem Inv.allow (h : l.Inv) : Onward l l.allow ∧ l.allow.Inv := by
  unfold Link.allow
  split
  · next t hlive =>
    have hrecord : l.receiver.record = some t := by rw [hlive]; rfl
    have ht := h.record t hrecord
    have hagrees : Agrees l.sender t.allow.2 := by
      constructor
      · rw [t.allow_eq]
        exact ht.length_eq
      · rw [t.allow_eq]
        exact ht.packetCount_eq
      · exact ht.counted.allow
      · rw [t.allow_eq]
        exact ht.sent
    have hinv := h.keeps [] (r := .live t.allow.2) hrecord rfl (by rw [t.allow_eq])
      t.allow_buffer hagrees (by simp)
    rwa [Link.withReceiver, List.append_nil] at hinv
  · exact ⟨.refl l, h⟩

theorem Inv.complete (h : l.Inv) : Onward l l.complete ∧ l.complete.Inv := by
  unfold Link.complete
  split
  · next t hlive =>
    have hrecord : l.receiver.record = some t := by rw [hlive]; rfl
    split
    · have hinv := h.keeps [] (r := .ended t) hrecord rfl rfl rfl (h.record t hrecord)
        (by simp)
      rwa [Link.withReceiver, List.append_nil] at hinv
    · exact ⟨.refl l, h⟩
  · exact ⟨.refl l, h⟩

theorem Inv.reject (h : l.Inv) : Onward l l.reject ∧ l.reject.Inv := by
  unfold Link.reject
  dsimp only
  split
  · next t hlive =>
    have hrecord : l.receiver.record = some t := by rw [hlive]; rfl
    exact h.keeps [.reject l.sender.transferId] (r := .ended t) hrecord rfl rfl rfl
      (h.record t hrecord) (by simp)
  · have hon : Onward l (l.withReceiver l.receiver l.uses [.reject l.sender.transferId]) :=
      ⟨rfl, le_rfl, fun _ hseq => hseq⟩
    refine ⟨hon, ?_⟩
    apply h.withReceiver hon h.absent h.record
    intro p hp
    rw [List.mem_singleton.mp hp]
    trivial

end Receiver

/-! ### Runs -/

theorem hearAnnounce_uses (l : Link) (transferId length stride : ℕ) (room : Bool) :
    l.uses ≤ (l.hearAnnounce transferId length stride room).uses := by
  unfold hearAnnounce
  split
  · exact le_rfl
  split
  · exact le_rfl
  split
  · exact Nat.le_succ _
  · exact le_rfl

theorem hear_uses (l : Link) (room : Bool) (p : Packet) : l.uses ≤ (l.hear room p).uses := by
  cases p with
  | announce id length stride => exact hearAnnounce_uses l id length stride room
  | data id seq payload =>
    rw [hear, hearData]
    split <;> exact le_rfl
  | ack => exact le_rfl
  | reject => exact le_rfl

theorem step_uses (l : Link) (e : Event) : l.uses ≤ (l.step e).uses := by
  cases e with
  | pass peer queued times now => rw [step]; split <;> exact le_rfl
  | arrive p room =>
    rw [step]
    split
    · exact hear_uses l room p
    · exact le_rfl
  | answer p now =>
    rw [step]
    split
    · cases p <;> exact le_rfl
    · exact le_rfl
  | allow => rw [step, allow]; split <;> exact le_rfl
  | complete =>
    rw [step, complete]
    split
    · split <;> exact le_rfl
    · exact le_rfl
  | reject => rw [step, reject]; dsimp only; split <;> exact le_rfl
  | drain => rw [step, drain]; split <;> exact le_rfl

theorem Inv.hear {l : Link} (h : l.Inv) {p : Packet} (hp : l.Honest p) (room : Bool)
    (huses : (l.hear room p).uses ≤ 1) :
    Onward l (l.hear room p) ∧ (l.hear room p).Inv := by
  cases p with
  | announce id length stride =>
    cases hp
    by_cases hended : ∃ t, l.receiver = .ended t
    · -- a second use of the id is past the bound, so the announcement was turned away
      obtain ⟨t, ht⟩ := hended
      have hpos : l.uses ≠ 0 := fun hzero => by rw [h.absent.mpr hzero] at ht; cases ht
      rw [Link.hear, Link.hearAnnounce] at huses ⊢
      rw [ht] at huses ⊢
      split
      · exact ⟨.refl l, h⟩
      · next hopen =>
        rw [if_neg hopen] at huses
        dsimp only at huses ⊢
        split
        · next hroom =>
          rw [if_pos hroom] at huses
          have : l.uses + 1 ≤ 1 := huses
          omega
        · exact ⟨.refl l, h⟩
    · exact h.hearAnnounce id stride room fun t ht => hended ⟨t, ht⟩
  | data id seq payload =>
    obtain ⟨hseq, rfl⟩ := hp
    exact h.hearData hseq
  | ack id recvNext bitmap => exact ⟨.refl l, h⟩
  | reject id => exact ⟨.refl l, h⟩

theorem Inv.step {l : Link} (h : l.Inv) (e : Event) (huses : (l.step e).uses ≤ 1) :
    (l.step e).Inv := by
  cases e with
  | pass peer queued times now =>
    rw [Link.step]
    split
    · exact h.pass peer queued times now
    · exact h
  | arrive p room =>
    rw [Link.step] at huses ⊢
    split
    · next hp =>
      rw [if_pos hp] at huses
      exact (h.hear (h.honest p hp) room huses).2
    · exact h
  | answer p now =>
    rw [Link.step]
    split
    · next hp =>
      have hhonest := h.honest p hp.1
      cases p with
      | announce => exact h
      | data => exact h
      | ack id recvNext bitmap => exact h.heedAck now hhonest.1
      | reject => exact h.heedReject
    · exact h
  | allow => exact h.allow.2
  | complete => exact h.complete.2
  | reject => exact h.reject.2
  | drain => exact h.drain

theorem run_inv {l : Link} (h : l.Inv) (events : List Event) (huses : (run step l events).uses ≤ 1) :
    (run step l events).Inv := by
  have hrun : (run step l events).uses ≤ 1 → (run step l events).Inv := by
    apply run_invariant step (fun l => l.uses ≤ 1 → l.Inv) (fun _ _ => True) ?_ (fun _ => h)
      (along_true step l events)
    intro l e _ hl hstep
    exact (hl ((step_uses l e).trans hstep)).step e hstep
  exact hrun huses

end Link
end BcpFlux.Transfer
