import BcpFlux.Transfer.Placement

/-! # What acknowledgements resolve

The sender's three rings, read as a record of the sequences between its cursor and the
next one to send.  An acknowledgement of any age is a true snapshot of the receiver, but
its bitmap is relative to the cursor of its time: resolving a sequence that has since
fallen below the sender's cursor touches the cell of one a window later.
-/

namespace BcpFlux.Transfer
open Library Peer OutTransfer

namespace Link

def isData (seq : ℕ) : Packet → Bool
  | .data _ n _ => n == seq
  | _ => false

def sends (l : Link) (seq : ℕ) : ℕ := l.net.countP (isData seq)

def Kept (out : OutTransfer) (seq : ℕ) : Prop := out.contiguousAcked ≤ seq ∧ seq < out.nextSeq

/-- The acknowledgement says that the receiver holds `seq`. -/
def Names (recvNext : ℕ) (bitmap : List Bool) (seq : ℕ) : Prop :=
  seq < recvNext ∨ ∃ i < transferWindow, bitmap[i]? = some true ∧ seq = recvNext + i

/-- No cell the bitmap names belongs to another sequence the sender keeps. -/
def Unaliased (out : OutTransfer) (recvNext : ℕ) (bitmap : List Bool) : Prop :=
  ∀ i < transferWindow, bitmap[i]? = some true → ∀ n, out.contiguousAcked ≤ n → n < out.nextSeq →
    slot transferWindow n = slot transferWindow (recvNext + i) → n = recvNext + i

/-- The clock reads positive when packets are stamped, and no acknowledgement is so late that
its bitmap names the cell of another sequence. -/
def Timely (l : Link) : Event → Prop
  | .pass _ _ _ now => 0 < now
  | .answer (.ack _ recvNext bitmap) _ => Unaliased l.sender recvNext bitmap
  | _ => True

/-- The rings are a true record of the sequences the sender keeps. -/
structure Booked (l : Link) : Prop where
  nodup : l.refunded.Nodup
  idle : ∀ n, (∀ m, Kept l.sender m → slot transferWindow m ≠ slot transferWindow n) →
    l.sender.stamp n = 0
  unsent : ∀ n, l.sender.nextSeq ≤ n → n ∉ l.refunded ∧ l.sends n = 0
  outstanding : ∀ n, Kept l.sender n → l.sender.stamp n ≠ 0 →
    n ∉ l.refunded ∧ l.sender.isAcked n = false ∧ (l.sender.isResent n = false → l.sends n = 1)
  cleared : ∀ n, Kept l.sender n → l.sender.stamp n = 0 →
    n ∈ l.refunded ∧ (l.sender.refused = true ∨ l.sender.isAcked n = true)
  acked : ∀ n, Kept l.sender n → l.sender.isAcked n = true → l.Placed n

section Window
variable {l : Link} {m n : ℕ}

/-- Two sequences the sender keeps never share a cell. -/
theorem Inv.kept_inj (h : l.Inv) (hm : Kept l.sender m) (hn : Kept l.sender n)
    (hcell : slot transferWindow m = slot transferWindow n) : m = n := by
  have hwindow := h.window
  obtain ⟨hm1, hm2⟩ := hm
  obtain ⟨hn1, hn2⟩ := hn
  rcases Nat.le_total m n with hmn | hnm
  · exact window_isPow2.slot_inj hmn (by omega) hcell
  · exact (window_isPow2.slot_inj hnm (by omega) hcell.symm).symm

/-- A cell with a stamp is the cell of a sequence the sender keeps. -/
theorem Booked.kept_of_stamp (h : l.Booked) (hstamp : l.sender.stamp n ≠ 0) :
    ∃ m, Kept l.sender m ∧ slot transferWindow m = slot transferWindow n := by
  by_contra hnone
  apply hstamp
  apply h.idle n
  intro m hm hcell
  exact hnone ⟨m, hm, hcell⟩

end Window

theorem booked_start (peerSlot : ℕ) (peerAddr : Address) (transferId : ℕ) (source : ℕ → UInt8)
    (length fromSlot : ℕ) (fromAddr : Address) (maxTransferBytes : ℕ) :
    (start (.start peerSlot peerAddr transferId source length) fromSlot fromAddr
      maxTransferBytes).Booked where
  nodup := List.nodup_nil
  idle _ _ := rfl
  unsent _ _ := ⟨List.not_mem_nil, rfl⟩
  outstanding n hn := absurd hn.2 (Nat.not_lt_zero n)
  cleared n hn := absurd hn.2 (Nat.not_lt_zero n)
  acked n hn := absurd hn.2 (Nat.not_lt_zero n)

variable {l : Link}

/-! ## The receiver moves -/

theorem Booked.onward {l' : Link} (h : l.Booked) (hon : Onward l l')
    (hrefunded : l'.refunded = l.refunded) (hsends : ∀ n, l'.sends n = l.sends n) : l'.Booked where
  nodup := by rw [hrefunded]; exact h.nodup
  idle := by rw [hon.sender]; exact h.idle
  unsent n hn := by
    rw [hon.sender] at hn
    rw [hrefunded, hsends]
    exact h.unsent n hn
  outstanding n := by
    rw [hon.sender, hrefunded, hsends]
    exact h.outstanding n
  cleared n := by
    rw [hon.sender, hrefunded]
    exact h.cleared n
  acked n hn hacked := by
    rw [hon.sender] at hn hacked
    exact hon.placed n (h.acked n hn hacked)

/-! ## The sender sends -/

section Sends
variable {l : Link} {out : OutTransfer} {more : List Packet} {now seq : ℕ}

theorem withSender_sends (l : Link) (out : OutTransfer) (log : List ℕ) (more : List Packet) (n : ℕ) :
    (l.withSender out log more).sends n = l.sends n + more.countP (isData n) :=
  List.countP_append

def books (out : OutTransfer) : (ℕ → ℕ) × (ℕ → Bool) × (ℕ → Bool) × ℕ × ℕ × Bool :=
  (out.sentAt, out.ackedBits, out.resentBits, out.contiguousAcked, out.nextSeq, out.refused)

theorem Booked.announce (h : l.Booked) (hterms : terms out = terms l.sender)
    (hbooks : books out = books l.sender) (hmore : ∀ n, more.countP (isData n) = 0) :
    (l.withSender out l.refunded more).Booked := by
  have hsends : ∀ n, (l.withSender out l.refunded more).sends n = l.sends n := by
    intro n
    rw [withSender_sends, hmore, Nat.add_zero]
  have hplaced : ∀ n, l.Placed n → (l.withSender out l.refunded more).Placed n := by
    rintro n ⟨t, ht, hfilled⟩
    obtain ⟨hsource, hlength, -⟩ := terms_eq_iff.mp hterms
    refine ⟨t, ht, ?_⟩
    rw [Link.withSender, hsource, hlength]
    exact hfilled
  simp only [books, Prod.mk.injEq] at hbooks
  obtain ⟨hsentAt, hacked, hresent, hcontig, hnext, hrefused⟩ := hbooks
  have hkept : ∀ n, Kept out n ↔ Kept l.sender n := by
    intro n
    rw [Kept, Kept, hcontig, hnext]
  constructor
  · exact h.nodup
  · intro n hn
    show out.sentAt _ = 0
    rw [hsentAt]
    apply h.idle n
    intro m hm
    exact hn m ((hkept m).mpr hm)
  · intro n hn
    rw [hsends]
    apply h.unsent n
    rw [← hnext]
    exact hn
  · intro n hn hstamp
    rw [hsends]
    simp only [Link.withSender, stamp, isAcked, isResent, hsentAt,
      hacked, hresent] at hstamp ⊢
    exact h.outstanding n ((hkept n).mp hn) hstamp
  · intro n hn hstamp
    simp only [Link.withSender, stamp, isAcked, hsentAt, hacked,
      hrefused] at hstamp ⊢
    exact h.cleared n ((hkept n).mp hn) hstamp
  · intro n hn hbit
    apply hplaced
    simp only [Link.withSender, isAcked, hacked] at hbit
    exact h.acked n ((hkept n).mp hn) hbit

theorem Booked.resent (h : l.Booked) (hinv : l.Inv) (hnow : 0 < now) (hkept : Kept l.sender seq)
    (hstamp : l.sender.stamp seq ≠ 0) (id : ℕ) (payload : List UInt8) :
    (l.withSender (l.sender.markSent seq now) l.refunded [.data id seq payload]).Booked := by
  have hother : ∀ n, Kept l.sender n → n ≠ seq →
      slot transferWindow n ≠ slot transferWindow seq := by
    intro n hn hne hcell
    exact hne (hinv.kept_inj hn hkept hcell)
  have hsends : ∀ n, n ≠ seq → List.countP (isData n) [Packet.data id seq payload] = 0 := by
    intro n hne
    simp [isData, hne.symm]
  constructor
  · exact h.nodup
  · intro n hn
    show (l.sender.markSent seq now).stamp n = 0
    rw [markSent_stamp, if_neg (hn seq hkept).symm]
    exact h.idle n hn
  · intro n hn
    have hne : n ≠ seq := by
      rintro rfl
      exact absurd hkept.2 (Nat.not_lt.mpr hn)
    rw [withSender_sends, hsends n hne]
    exact h.unsent n hn
  · intro n hn hne
    by_cases heq : n = seq
    · subst heq
      refine ⟨(h.outstanding n hn hstamp).1, ?_, ?_⟩
      · show (l.sender.markSent n now).isAcked n = false
        rw [markSent_isAcked, if_pos rfl]
      · intro hfirst
        have hagain := l.sender.markSent_isResent_self n now hstamp
        rw [Link.withSender, hagain] at hfirst
        cases hfirst
    · have hcell := hother n hn heq
      simp only [Link.withSender, markSent_stamp, if_neg hcell] at hne
      rw [withSender_sends, hsends n heq]
      simp only [Link.withSender, markSent_isAcked, if_neg hcell,
        l.sender.markSent_isResent_of_ne seq now n hcell]
      exact h.outstanding n hn hne
  · intro n hn hzero
    by_cases heq : n = seq
    · subst heq
      simp only [Link.withSender, markSent_stamp, if_true] at hzero
      omega
    · have hcell := hother n hn heq
      simp only [Link.withSender, markSent_stamp, markSent_isAcked,
        if_neg hcell] at hzero ⊢
      exact h.cleared n hn hzero
  · intro n hn hbit
    by_cases heq : n = seq
    · subst heq
      simp [Link.withSender] at hbit
    · have hcell := hother n hn heq
      simp only [Link.withSender, markSent_isAcked, if_neg hcell] at hbit
      exact h.acked n hn hbit

theorem Booked.sent (h : l.Booked) (hnow : 0 < now)
    (hle : l.sender.contiguousAcked ≤ l.sender.nextSeq)
    (hwindow : l.sender.nextSeq < l.sender.contiguousAcked + transferWindow) (id : ℕ)
    (payload : List UInt8) :
    (l.withSender { l.sender.markSent l.sender.nextSeq now with nextSeq := l.sender.nextSeq + 1 }
      l.refunded [.data id l.sender.nextSeq payload]).Booked := by
  have hother : ∀ n, Kept l.sender n →
      slot transferWindow n ≠ slot transferWindow l.sender.nextSeq := by
    intro n hn hcell
    have := window_isPow2.slot_inj hn.2.le (by have := hn.1; omega) hcell
    exact absurd this hn.2.ne
  have hsends : ∀ n, n ≠ l.sender.nextSeq →
      List.countP (isData n) [Packet.data id l.sender.nextSeq payload] = 0 := by
    intro n hne
    simp [isData, hne.symm]
  -- a sequence kept now was kept before, or is the one just sent
  have hsplit : ∀ n, l.sender.contiguousAcked ≤ n → n < l.sender.nextSeq + 1 →
      Kept l.sender n ∨ n = l.sender.nextSeq := by
    intro n hle hlt
    rcases Nat.lt_succ_iff_lt_or_eq.mp hlt with hlt | heq
    · exact .inl ⟨hle, hlt⟩
    · exact .inr heq
  constructor
  · exact h.nodup
  · intro n hn
    have hne := hn l.sender.nextSeq ⟨hle, Nat.lt_succ_self _⟩
    show (l.sender.markSent l.sender.nextSeq now).stamp n = 0
    rw [markSent_stamp, if_neg hne.symm]
    apply h.idle n
    intro m hm
    exact hn m ⟨hm.1, Nat.lt_succ_of_lt hm.2⟩
  · intro n hn
    have hne : n ≠ l.sender.nextSeq := by
      have : l.sender.nextSeq + 1 ≤ n := hn
      omega
    rw [withSender_sends, hsends n hne]
    exact h.unsent n (Nat.le_of_succ_le hn)
  · intro n hn hne
    rw [withSender_sends]
    change (l.sender.markSent l.sender.nextSeq now).stamp n ≠ 0 at hne
    change n ∉ l.refunded ∧ (l.sender.markSent l.sender.nextSeq now).isAcked n = false ∧
      ((l.sender.markSent l.sender.nextSeq now).isResent n = false → _)
    rcases hsplit n hn.1 hn.2 with hold | rfl
    · have hcell := hother n hold
      rw [markSent_stamp, if_neg hcell] at hne
      rw [hsends n hold.2.ne, markSent_isAcked, if_neg hcell,
        l.sender.markSent_isResent_of_ne _ now n hcell]
      exact h.outstanding n hold hne
    · obtain ⟨hfresh, hnone⟩ := h.unsent l.sender.nextSeq le_rfl
      refine ⟨hfresh, ?_, ?_⟩
      · rw [markSent_isAcked, if_pos rfl]
      · intro _
        simp [hnone, isData]
  · intro n hn hzero
    change (l.sender.markSent l.sender.nextSeq now).stamp n = 0 at hzero
    change n ∈ l.refunded ∧ (l.sender.refused = true ∨
      (l.sender.markSent l.sender.nextSeq now).isAcked n = true)
    rcases hsplit n hn.1 hn.2 with hold | rfl
    · have hcell := hother n hold
      rw [markSent_stamp, if_neg hcell] at hzero
      rw [markSent_isAcked, if_neg hcell]
      exact h.cleared n hold hzero
    · rw [markSent_stamp, if_pos rfl] at hzero
      omega
  · intro n hn hbit
    change (l.sender.markSent l.sender.nextSeq now).isAcked n = true at hbit
    rcases hsplit n hn.1 hn.2 with hold | rfl
    · rw [markSent_isAcked, if_neg (hother n hold)] at hbit
      exact h.acked n hold hbit
    · simp at hbit

theorem Inv.cursor_le (h : l.Inv) : l.cursor ≤ l.sender.nextSeq := by
  cases hr : l.receiver.record with
  | none =>
    rw [cursor, hr]
    exact Nat.zero_le _
  | some t =>
    have hsent := (h.record t hr).sent
    rw [cursor, hr]
    show t.recvNext ≤ _
    by_contra hlt
    -- the last sequence below the cursor was sent
    have hlast := hsent.below (t.recvNext - 1) (by omega)
    omega

theorem Booked.sends {t t' : Turn} (hsends : Turn.Sends now t t') (hnow : 0 < now)
    (hinv : (l.withSender t.out l.refunded t.packets).Inv)
    (h : (l.withSender t.out l.refunded t.packets).Booked) :
    (l.withSender t'.out l.refunded t'.packets).Booked := by
  cases hsends with
  | nothing hout hpackets _ => rwa [hout, hpackets]
  | announced hout hpackets _ =>
    rw [hout, hpackets, withSender_append l t.out]
    apply h.announce
    · rfl
    · rfl
    · intro n
      rfl
  | unanswered hout hpackets _ =>
    rw [hout, hpackets, ← List.append_nil t.packets, withSender_append l t.out]
    apply h.announce
    · rfl
    · rfl
    · intro n
      rfl
  | resent seq hle hlt hstamp hout hpackets _ =>
    rw [hout, hpackets, withSender_append l t.out]
    exact h.resent hinv hnow ⟨hle, hlt⟩ hstamp _ _
  | sent hcount hwindow hout hpackets _ =>
    rw [hout, hpackets, withSender_append l t.out]
    exact h.sent hnow (hinv.behind.trans hinv.cursor_le) hwindow _ _

theorem Booked.pass (h : l.Booked) (hinv : l.Inv) (peer : PeerBudget) (queued : ℕ)
    (times : Intervals) (hnow : 0 < now) : (l.pass peer queued times now).Booked := by
  have hboth : (l.pass peer queued times now).Inv ∧ (l.pass peer queued times now).Booked := by
    apply Turn.run_induction (fun t => (l.withSender t.out l.refunded t.packets).Inv ∧
      (l.withSender t.out l.refunded t.packets).Booked) now
    · rintro t t' hsends ⟨hi, hb⟩
      exact ⟨hi.sends hsends, hb.sends hsends hnow hi⟩
    · rw [show l.withSender (Turn.fresh peer l.sender queued).out l.refunded
        (Turn.fresh peer l.sender queued).packets = l by simp [Link.withSender, Turn.fresh]]
      exact ⟨hinv, h⟩
  exact hboth.2

end Sends

/-! ## An acknowledgement arrives -/

section Ack
variable {l : Link} {id recvNext : ℕ} {bitmap : List Bool} {n : ℕ}

theorem Inv.ack_le_count (h : l.Inv) (hack : l.Honest (.ack id recvNext bitmap)) :
    recvNext ≤ l.sender.packetCount := by
  apply hack.1.trans
  cases hr : l.receiver.record with
  | none =>
    rw [cursor, hr]
    exact Nat.zero_le _
  | some t =>
    have ht := h.record t hr
    rw [cursor, hr, ← ht.packetCount_eq]
    exact ht.counted.cursor_le

theorem Inv.placed_below (h : l.Inv) (hack : l.Honest (.ack id recvNext bitmap)) (hn : n < recvNext) :
    l.Placed n ∧ n < l.sender.nextSeq := by
  have hcursor : n < l.cursor := lt_of_lt_of_le hn hack.1
  cases hr : l.receiver.record with
  | none =>
    rw [cursor, hr] at hcursor
    exact absurd hcursor (Nat.not_lt_zero n)
  | some t =>
    have ht := h.record t hr
    rw [cursor, hr] at hcursor
    refine ⟨⟨t, hr, ?_⟩, ht.sent.below n hcursor⟩
    rw [← ht.length_eq]
    exact ht.counted.marks.below n hcursor

theorem Inv.mem_bitmap (h : l.Inv) (hack : l.Honest (.ack id recvNext bitmap))
    (hn : n ∈ bitmapSeqs l.sender.packetCount recvNext bitmap) :
    ∃ i < transferWindow, bitmap[i]? = some true ∧ n = recvNext + i := by
  obtain ⟨-, i, hi, hbit, rfl⟩ := mem_bitmapSeqs hn
  refine ⟨i, hi, hbit, ?_⟩
  have hcount : recvNext + i < l.sender.packetCount := (hack.2 i hbit).2.1
  have hword : l.sender.packetCount < 2 ^ 32 := by
    rw [h.count_eq]
    exact Nat.mod_lt _ (by decide)
  exact Nat.mod_eq_of_lt (by omega)

theorem Inv.mem_ackSeqs (h : l.Inv) (hack : l.Honest (.ack id recvNext bitmap))
    (hn : n ∈ l.sender.ackSeqs recvNext bitmap) :
    l.Placed n ∧ n < l.sender.nextSeq ∧
      ((l.sender.contiguousAcked ≤ n ∧ n < recvNext) ∨
        ∃ i < transferWindow, bitmap[i]? = some true ∧ n = recvNext + i) := by
  rcases List.mem_append.mp hn with hbelow | habove
  · rw [List.mem_range'_1] at hbelow
    obtain ⟨hplaced, hsent⟩ := h.placed_below hack (n := n) (by omega)
    exact ⟨hplaced, hsent, .inl ⟨hbelow.1, by omega⟩⟩
  · obtain ⟨i, hi, hbit, rfl⟩ := h.mem_bitmap hack habove
    obtain ⟨hsent, -, hplaced⟩ := hack.2 i hbit
    exact ⟨hplaced, hsent, .inr ⟨i, hi, hbit, rfl⟩⟩

theorem bitmapSeqs_nodup (h : l.Inv) (hack : l.Honest (.ack id recvNext bitmap)) :
    (bitmapSeqs l.sender.packetCount recvNext bitmap).Nodup := by
  apply List.Nodup.sublist (List.takeWhile_sublist _)
  have hword : l.sender.packetCount < 2 ^ 32 := by
    rw [h.count_eq]
    exact Nat.mod_lt _ (by decide)
  -- the indices of a list are distinct, and no sum of a set bit wraps
  have hindex : ((bitmap.take transferWindow).zipIdx.map Prod.snd).Nodup := by
    rw [List.zipIdx_map_snd]
    exact List.nodup_range'
  have hset : ∀ bit ∈ (bitmap.take transferWindow).zipIdx.filter Prod.fst,
      recvNext + bit.2 < l.sender.packetCount := by
    rintro ⟨bit, i⟩ hbit
    obtain ⟨hmem, rfl⟩ := List.mem_filter.mp hbit
    rw [List.mk_mem_zipIdx_iff_getElem?, List.getElem?_take] at hmem
    split at hmem
    · exact (hack.2 i hmem).2.1
    · cases hmem
  apply List.Nodup.map_on
  · intro a ha b hb heq
    have hab : a.2 = b.2 := by
      have := hset a ha
      have := hset b hb
      simp only [u32] at heq
      rw [Nat.mod_eq_of_lt (by omega), Nat.mod_eq_of_lt (by omega)] at heq
      omega
    exact List.inj_on_of_nodup_map hindex (List.mem_of_mem_filter ha) (List.mem_of_mem_filter hb) hab
  · exact (List.Nodup.of_map _ hindex).filter _

/-- An acknowledgement of any age names each cell once. -/
theorem Inv.ackSeqs_nodup (h : l.Inv) (hack : l.Honest (.ack id recvNext bitmap)) :
    ((l.sender.ackSeqs recvNext bitmap).map (slot transferWindow)).Nodup := by
  have hwindow := h.window
  apply List.Nodup.map_on
  · intro a ha b hb hcell
    obtain ⟨-, ha', hacase⟩ := h.mem_ackSeqs hack ha
    obtain ⟨-, hb', hbcase⟩ := h.mem_ackSeqs hack hb
    have hspan : a < b + transferWindow ∧ b < a + transferWindow := by
      rcases hacase with ⟨ha1, ha2⟩ | ⟨i, hi, -, rfl⟩
      · rcases hbcase with ⟨hb1, hb2⟩ | ⟨j, hj, -, rfl⟩ <;> omega
      · rcases hbcase with ⟨hb1, hb2⟩ | ⟨j, hj, -, rfl⟩ <;> omega
    rcases Nat.le_total a b with hab | hba
    · exact window_isPow2.slot_inj hab (by omega) hcell
    · exact (window_isPow2.slot_inj hba (by omega) hcell.symm).symm
  · rw [ackSeqs, List.nodup_append]
    refine ⟨List.nodup_range', bitmapSeqs_nodup h hack, ?_⟩
    intro a ha b hb
    rw [List.mem_range'_1] at ha
    obtain ⟨i, -, -, rfl⟩ := h.mem_bitmap hack hb
    omega

/-- Without aliasing, a kept sequence whose cell is resolved was named itself. -/
theorem Inv.resolved_named (h : l.Inv) (hack : l.Honest (.ack id recvNext bitmap))
    (hunaliased : Unaliased l.sender recvNext bitmap) (hn : Kept l.sender n)
    (hcell : slot transferWindow n ∈
      (l.sender.ackSeqs recvNext bitmap).map (slot transferWindow)) :
    n ∈ l.sender.ackSeqs recvNext bitmap := by
  obtain ⟨k, hk, hslot⟩ := List.mem_map.mp hcell
  obtain ⟨-, hsent, hcase⟩ := h.mem_ackSeqs hack hk
  rcases hcase with ⟨hle, -⟩ | ⟨i, hi, hbit, rfl⟩
  · rwa [h.kept_inj hn ⟨hle, hsent⟩ hslot.symm]
  · rwa [hunaliased i hi hbit n hn.1 hn.2 hslot.symm]

theorem Booked.freed (h : l.Booked) (hinv : l.Inv) (hack : l.Honest (.ack id recvNext bitmap))
    (hunaliased : Unaliased l.sender recvNext bitmap)
    (hn : n ∈ l.sender.ackSeqs recvNext bitmap) (hstamp : l.sender.stamp n ≠ 0) :
    Kept l.sender n ∧ n ∉ l.refunded := by
  obtain ⟨m, hm, hcell⟩ := h.kept_of_stamp hstamp
  have hmn : m = n := by
    obtain ⟨-, hsent, hcase⟩ := hinv.mem_ackSeqs hack hn
    rcases hcase with ⟨hle, -⟩ | ⟨i, hi, hbit, rfl⟩
    · exact hinv.kept_inj hm ⟨hle, hsent⟩ hcell
    · exact hunaliased i hi hbit m hm.1 hm.2 hcell
  subst hmn
  exact ⟨hm, (h.outstanding m hm hstamp).1⟩

theorem Booked.heedAck (h : l.Booked) (hinv : l.Inv) (hack : l.Honest (.ack id recvNext bitmap))
    (hunaliased : Unaliased l.sender recvNext bitmap) (now : ℕ) :
    (l.heedAck recvNext bitmap now).Booked := by
  have hmin : min recvNext l.sender.packetCount = recvNext := min_eq_left (hinv.ack_le_count hack)
  have hframe := l.sender.onAck_frame now recvNext bitmap
  have hnext : (l.sender.onAck recvNext bitmap now).1.nextSeq = l.sender.nextSeq :=
    congrArg (fun f => f.2.2.2.2.2.2.1) hframe
  have hcontig := l.sender.onAck_contiguousAcked now recvNext bitmap
  have hstamp := l.sender.onAck_stamp now recvNext bitmap
  have hacked := l.sender.onAck_isAcked now recvNext bitmap
  have hfreed := l.sender.onAck_freed now recvNext bitmap (by rw [hmin]; exact hinv.ackSeqs_nodup hack)
  have hnodup := hinv.ackSeqs_nodup hack
  rw [hmin] at hcontig hfreed
  simp only [hmin] at hstamp hacked
  -- the cursor only moves up, so what is kept now was kept before
  have hkept : ∀ m, Kept (l.sender.onAck recvNext bitmap now).1 m →
      Kept l.sender m ∧ recvNext ≤ m := by
    intro m hm
    rw [Kept, hcontig, hnext] at hm
    exact ⟨⟨by omega, hm.2⟩, by omega⟩
  have hplaced : ∀ m, l.Placed m → (l.heedAck recvNext bitmap now).Placed m := by
    rintro m ⟨t, ht, hfilled⟩
    have hsource : (l.sender.onAck recvNext bitmap now).1.source = l.sender.source :=
      congrArg (fun f => f.2.2.2.1) hframe
    have hlength : (l.sender.onAck recvNext bitmap now).1.length = l.sender.length :=
      congrArg (fun f => f.2.2.2.2.1) hframe
    refine ⟨t, ht, ?_⟩
    rw [Link.heedAck, hsource, hlength]
    exact hfilled
  constructor
  · show (l.refunded ++ (l.sender.onAck recvNext bitmap now).2.1.freed).Nodup
    rw [hfreed, List.nodup_append]
    refine ⟨h.nodup, (List.Nodup.of_map _ hnodup).filter _, ?_⟩
    rintro a ha b hb rfl
    obtain ⟨hmem, hne⟩ := List.mem_filter.mp hb
    exact (h.freed hinv hack hunaliased hmem (by simpa using hne)).2 ha
  · intro m hm
    show (l.sender.onAck recvNext bitmap now).1.stamp m = 0
    rw [hstamp]
    split
    · rfl
    · next hcell =>
      apply h.idle m
      intro k hk hkm
      by_cases hbelow : k < recvNext
      · -- the cursor passed `k`, which resolved its cell
        apply hcell
        rw [← hkm]
        apply List.mem_map_of_mem
        apply List.mem_append_left
        rw [List.mem_range'_1]
        have := hk.1
        omega
      · apply hm k _ hkm
        show Kept (l.sender.onAck recvNext bitmap now).1 k
        rw [Kept, hcontig, hnext]
        have := hk.1
        have := hk.2
        omega
  · intro m hm
    change (l.sender.onAck recvNext bitmap now).1.nextSeq ≤ m at hm
    rw [hnext] at hm
    obtain ⟨hold, hnone⟩ := h.unsent m hm
    refine ⟨?_, hnone⟩
    show m ∉ l.refunded ++ (l.sender.onAck recvNext bitmap now).2.1.freed
    rw [hfreed, List.mem_append, not_or]
    refine ⟨hold, ?_⟩
    intro hmem
    have := (hinv.mem_ackSeqs hack (List.mem_of_mem_filter hmem)).2.1
    omega
  · intro m hm hne
    obtain ⟨hm, -⟩ := hkept m hm
    change (l.sender.onAck recvNext bitmap now).1.stamp m ≠ 0 at hne
    rw [hstamp] at hne
    split at hne
    · exact absurd rfl hne
    · next hcell =>
      obtain ⟨hrefund, hbit, hsends⟩ := h.outstanding m hm hne
      refine ⟨?_, ?_, ?_⟩
      · show m ∉ l.refunded ++ (l.sender.onAck recvNext bitmap now).2.1.freed
        rw [hfreed, List.mem_append, not_or]
        refine ⟨hrefund, ?_⟩
        intro hmem
        exact hcell (List.mem_map_of_mem (List.mem_of_mem_filter hmem))
      · show (l.sender.onAck recvNext bitmap now).1.isAcked m = false
        rw [hacked, if_neg hcell, hbit]
      · intro hfirst
        change (l.sender.onAck recvNext bitmap now).1.isResent m = false at hfirst
        rw [l.sender.onAck_isResent now recvNext bitmap (by rwa [hmin])] at hfirst
        exact hsends hfirst
  · intro m hm hzero
    obtain ⟨hm, -⟩ := hkept m hm
    change (l.sender.onAck recvNext bitmap now).1.stamp m = 0 at hzero
    show m ∈ l.refunded ++ (l.sender.onAck recvNext bitmap now).2.1.freed ∧
      ((l.sender.onAck recvNext bitmap now).1.refused = true ∨
        (l.sender.onAck recvNext bitmap now).1.isAcked m = true)
    rw [hstamp] at hzero
    rw [hfreed, hacked, onAck_refused, List.mem_append, List.mem_filter]
    split at hzero
    · next hcell =>
      have hmem := hinv.resolved_named hack hunaliased hm hcell
      rw [if_pos hcell]
      by_cases hold : l.sender.stamp m = 0
      · exact ⟨.inl (h.cleared m hm hold).1, .inr rfl⟩
      · exact ⟨.inr ⟨hmem, by simpa using hold⟩, .inr rfl⟩
    · next hcell =>
      rw [if_neg hcell]
      obtain ⟨hrefund, hwhy⟩ := h.cleared m hm hzero
      exact ⟨.inl hrefund, hwhy⟩
  · intro m hm hbit
    obtain ⟨hm, -⟩ := hkept m hm
    change (l.sender.onAck recvNext bitmap now).1.isAcked m = true at hbit
    apply hplaced
    rw [hacked] at hbit
    split at hbit
    · next hcell =>
      exact (hinv.mem_ackSeqs hack (hinv.resolved_named hack hunaliased hm hcell)).1
    · exact h.acked m hm hbit

end Ack

/-! ## A refusal arrives -/

theorem Booked.heedReject (h : l.Booked) (hinv : l.Inv) : l.heedReject.Booked := by
  by_cases hrefused : l.sender.refused = true
  · -- a second refusal changes nothing
    have hsame : l.heedReject = l := by
      simp [Link.heedReject, onRefused, hrefused]
    rwa [hsame]
  have hopen : l.sender.refused = false := Bool.eq_false_of_not_eq_true hrefused
  have hmem : ∀ n, n ∈ l.sender.openSeqs ↔ Kept l.sender n := by
    intro n
    rw [openSeqs, List.mem_range'_1, Kept]
    omega
  have hnodup : (l.sender.openSeqs.map (slot transferWindow)).Nodup := by
    apply List.Nodup.map_on
    · intro a ha b hb hcell
      exact hinv.kept_inj ((hmem a).mp ha) ((hmem b).mp hb) hcell
    · exact List.nodup_range'
  have hfreed := l.sender.onRefused_freed hopen hnodup
  have hstamp := l.sender.onRefused_stamp hopen
  have heq := l.sender.onRefused_eq
  have hkept : ∀ n, Kept l.sender.onRefused.1 n ↔ Kept l.sender n := by
    intro n
    rw [heq]
    rfl
  have hgone : ∀ n, Kept l.sender n → l.sender.onRefused.1.stamp n = 0 := by
    intro n hn
    rw [hstamp, if_pos (List.mem_map_of_mem ((hmem n).mpr hn))]
  constructor
  · show (l.refunded ++ l.sender.onRefused.2.1).Nodup
    rw [hfreed, List.nodup_append]
    refine ⟨h.nodup, (List.Nodup.of_map _ hnodup).filter _, ?_⟩
    rintro a ha b hb rfl
    obtain ⟨hin, hne⟩ := List.mem_filter.mp hb
    exact (h.outstanding a ((hmem a).mp hin) (by simpa using hne)).1 ha
  · intro n hn
    show l.sender.onRefused.1.stamp n = 0
    rw [hstamp]
    split
    · rfl
    · apply h.idle n
      intro m hm
      exact hn m ((hkept m).mpr hm)
  · intro n hn
    change l.sender.onRefused.1.nextSeq ≤ n at hn
    rw [heq] at hn
    obtain ⟨hold, hnone⟩ := h.unsent n hn
    refine ⟨?_, hnone⟩
    show n ∉ l.refunded ++ l.sender.onRefused.2.1
    rw [hfreed, List.mem_append, not_or]
    refine ⟨hold, ?_⟩
    intro hin
    exact absurd ((hmem n).mp (List.mem_of_mem_filter hin)).2 (Nat.not_lt.mpr hn)
  · intro n hn hne
    exact absurd (hgone n ((hkept n).mp hn)) hne
  · intro n hn _
    have hold := (hkept n).mp hn
    refine ⟨?_, .inl ?_⟩
    · show n ∈ l.refunded ++ l.sender.onRefused.2.1
      rw [hfreed, List.mem_append, List.mem_filter]
      by_cases hzero : l.sender.stamp n = 0
      · exact .inl (h.cleared n hold hzero).1
      · exact .inr ⟨(hmem n).mpr hold, by simpa using hzero⟩
    · show l.sender.onRefused.1.refused = true
      rw [heq]
  · intro n hn hbit
    have hold := (hkept n).mp hn
    have hbit' : l.sender.isAcked n = true := by
      change l.sender.onRefused.1.isAcked n = true at hbit
      rw [heq] at hbit
      exact hbit
    obtain ⟨t, ht, hfilled⟩ := h.acked n hold hbit'
    refine ⟨t, ht, ?_⟩
    rw [Link.heedReject, heq]
    exact hfilled

/-! ## Runs -/

section Runs
variable {l : Link}

theorem answerDebt_isData (t : InTransfer) (n : ℕ) : t.answerDebt.2.countP (isData n) = 0 := by
  rw [List.countP_eq_zero]
  intro p hp
  rw [InTransfer.mem_answerDebt hp]
  exact Bool.false_ne_true

theorem reply_books (l : Link) (t : InTransfer) :
    (l.reply t).refunded = l.refunded ∧ ∀ n, (l.reply t).sends n = l.sends n := by
  refine ⟨rfl, ?_⟩
  intro n
  rw [sends, reply, List.countP_append, answerDebt_isData, Nat.add_zero]
  rfl

theorem hear_books (l : Link) (room : Bool) (p : Packet) :
    (l.hear room p).refunded = l.refunded ∧ ∀ n, (l.hear room p).sends n = l.sends n := by
  cases p with
  | announce id length stride =>
    rw [hear, hearAnnounce]
    split
    · exact ⟨rfl, fun _ => rfl⟩
    split
    · exact reply_books l _
    split
    · exact reply_books { l with uses := l.uses + 1 } _
    · exact ⟨rfl, fun _ => rfl⟩
  | data id seq payload =>
    rw [hear, hearData]
    split
    · exact reply_books l _
    · exact ⟨rfl, fun _ => rfl⟩
  | ack => exact ⟨rfl, fun _ => rfl⟩
  | reject => exact ⟨rfl, fun _ => rfl⟩

theorem Booked.step (h : l.Booked) (hinv : l.Inv) {e : Event} (htimely : l.Timely e)
    (huses : (l.step e).uses ≤ 1) : (l.step e).Booked := by
  cases e with
  | pass peer queued times now =>
    rw [Link.step]
    split
    · exact h.pass hinv peer queued times htimely
    · exact h
  | arrive p room =>
    rw [Link.step] at huses ⊢
    split
    · next hp =>
      rw [if_pos hp] at huses
      obtain ⟨hrefunded, hsends⟩ := hear_books l room p
      exact h.onward (hinv.hear (hinv.honest p hp) room huses).1 hrefunded hsends
    · exact h
  | answer p now =>
    rw [Link.step]
    split
    · next hp =>
      have hhonest := hinv.honest p hp.1
      cases p with
      | announce => exact h
      | data => exact h
      | ack id recvNext bitmap => exact h.heedAck hinv hhonest htimely now
      | reject => exact h.heedReject hinv
    · exact h
  | allow =>
    apply h.onward hinv.allow.1
    · rw [Link.allow]; split <;> rfl
    · intro n
      rw [Link.allow]; split <;> rfl
  | complete =>
    apply h.onward hinv.complete.1
    · rw [Link.complete]
      split
      · split <;> rfl
      · rfl
    · intro n
      rw [Link.complete]
      split
      · split <;> rfl
      · rfl
  | reject =>
    apply h.onward hinv.reject.1
    · rw [Link.reject]; dsimp only; split <;> rfl
    · intro n
      have hnet : l.reject.net = l.net ++ [.reject l.sender.transferId] := by
        rw [Link.reject]; dsimp only; split <;> rfl
      rw [Link.sends, hnet, List.countP_append]
      rfl
  | drain =>
    rw [Link.step, Link.drain]
    split
    · exact ⟨h.nodup, h.idle, h.unsent, h.outstanding, h.cleared, h.acked⟩
    · exact h

theorem run_booked (hinv : l.Inv) (h : l.Booked) (events : List Event)
    (htimely : Along Link.step Timely l events) (huses : (run Link.step l events).uses ≤ 1) :
    (run Link.step l events).Inv ∧ (run Link.step l events).Booked := by
  have hrun : (run Link.step l events).uses ≤ 1 →
      (run Link.step l events).Inv ∧ (run Link.step l events).Booked := by
    apply run_invariant Link.step (fun l => l.uses ≤ 1 → l.Inv ∧ l.Booked) Timely ?_
      (fun _ => ⟨hinv, h⟩) htimely
    intro l e hok hl hstep
    obtain ⟨hi, hb⟩ := hl ((step_uses l e).trans hstep)
    exact ⟨hi.step e hstep, hb.step hi hok hstep⟩
  exact hrun huses

end Runs

/-- Every sequence the sender keeps that is marked as acknowledged, or whose stamp an
acknowledgement cleared, is placed at the receiver and refunded once. -/
def Resolved (l : Link) : Prop :=
  ∀ n, Kept l.sender n →
    (l.sender.isAcked n = true ∨ l.sender.stamp n = 0 ∧ l.sender.refused = false) →
    l.Placed n ∧ l.refunded.count n = 1

/-- A sample the acknowledgement would give is the age of a sequence it names and that was
sent once. -/
def SampleNamed (l : Link) (recvNext : ℕ) (bitmap : List Bool) (now : ℕ) : Prop :=
  (l.sender.onAck recvNext bitmap now).2.1.rttSample ≠ 0 →
    ∃ n, Names recvNext bitmap n ∧ l.sends n = 1 ∧
      (l.sender.onAck recvNext bitmap now).2.1.rttSample = now - l.sender.stamp n

theorem Booked.resolved (h : l.Booked) : l.Resolved := by
  intro n hn hwhy
  have hacked : l.sender.isAcked n = true ∧ l.sender.stamp n = 0 := by
    rcases hwhy with hacked | ⟨hzero, hrefused⟩
    · refine ⟨hacked, ?_⟩
      by_contra hstamp
      have := (h.outstanding n hn hstamp).2.1
      simp [hacked] at this
    · refine ⟨?_, hzero⟩
      simpa [hrefused] using (h.cleared n hn hzero).2
  constructor
  · exact h.acked n hn hacked.1
  · exact List.count_eq_one_of_mem h.nodup (h.cleared n hn hacked.2).1

theorem Booked.sampleNamed (h : l.Booked) (hinv : l.Inv) {id recvNext : ℕ}
    {bitmap : List Bool} (hack : l.Honest (.ack id recvNext bitmap))
    (hunaliased : Unaliased l.sender recvNext bitmap) (now : ℕ) :
    l.SampleNamed recvNext bitmap now := by
  intro hsample
  obtain ⟨n, hn, hstamp, hresent, hage⟩ := l.sender.onAck_rttSample now recvNext bitmap hsample
  rw [min_eq_left (hinv.ack_le_count hack)] at hn
  obtain ⟨hkept, -⟩ := h.freed hinv hack hunaliased hn hstamp
  refine ⟨n, ?_, (h.outstanding n hkept hstamp).2.2 hresent, hage⟩
  rcases (hinv.mem_ackSeqs hack hn).2.2 with ⟨-, hbelow⟩ | habove
  · exact .inl hbelow
  · exact .inr habove

/-- In every run in which the clock is positive and no acknowledgement is so late that its
bitmap names the cell of another sequence, acknowledgements resolve only what they name. -/
theorem acks_resolve_named (peerSlot : ℕ) (peerAddr : Address) (transferId : ℕ)
    (source : ℕ → UInt8) (length fromSlot : ℕ) (fromAddr : Address) (maxTransferBytes : ℕ)
    (events : List Event)
    (htimely : Along step Timely (start (.start peerSlot peerAddr transferId source length) fromSlot
      fromAddr maxTransferBytes) events) :
    let l := run step (start (.start peerSlot peerAddr transferId source length) fromSlot fromAddr
      maxTransferBytes) events
    l.uses ≤ 1 → l.Resolved ∧
      ∀ id recvNext bitmap now, .ack id recvNext bitmap ∈ l.net →
        l.Timely (.answer (.ack id recvNext bitmap) now) → l.SampleNamed recvNext bitmap now := by
  intro l huses
  obtain ⟨hinv, hbooked⟩ := run_booked (inv_start peerSlot peerAddr transferId source length fromSlot
    fromAddr maxTransferBytes) (booked_start peerSlot peerAddr transferId source length fromSlot
    fromAddr maxTransferBytes) events htimely huses
  refine ⟨hbooked.resolved, ?_⟩
  intro id recvNext bitmap now hack hunaliased
  exact hbooked.sampleNamed hinv (hinv.honest _ hack) hunaliased now

/-- Before the first packet is contiguous no bitmap is late. -/
theorem unaliased_zero {out : OutTransfer} (hsent : out.nextSeq ≤ transferWindow)
    (bitmap : List Bool) : Unaliased out 0 bitmap := by
  intro i hi _ n _ hn hcell
  rw [window_isPow2.slot_eq, window_isPow2.slot_eq, Nat.zero_add, Nat.mod_eq_of_lt hi,
    Nat.mod_eq_of_lt (by omega)] at hcell
  omega

def onlySecond : List Bool := false :: true :: List.replicate (transferWindow - 2) false

/-- The second packet before the first, each acknowledged as it arrives. -/
def swappedAcks : List Event :=
  opening 5 1165 ++ [.arrive (.data 5 1 [7, 7]) true, .answer (.ack 5 0 onlySecond) 4,
    .arrive (.data 5 0 (List.replicate 1163 7)) true]

theorem swappedAcks_timely :
    Along step Timely (start (.start 0 ⟨[], 0, 0⟩ 5 (fun _ => 7) 1165) 0 ⟨[], 0, 0⟩ 5000)
      swappedAcks := by
  simp only [swappedAcks, opening, List.cons_append, List.nil_append, Along, Timely, true_and, and_true]
  exact ⟨by decide, unaliased_zero (by decide +kernel) _, by decide,
    unaliased_zero (by decide +kernel) _⟩

theorem acks_resolve_named_swapped :
    let l := run step (start (.start 0 ⟨[], 0, 0⟩ 5 (fun _ => 7) 1165) 0 ⟨[], 0, 0⟩ 5000) swappedAcks
    (l.uses ≤ 1 ∧ l.sender.isAcked 0 = false ∧ l.sender.isAcked 1 = true ∧ l.refunded = [1]) ∧
      l.Resolved ∧ ∀ id recvNext bitmap now, .ack id recvNext bitmap ∈ l.net →
        l.Timely (.answer (.ack id recvNext bitmap) now) → l.SampleNamed recvNext bitmap now :=
  ⟨by decide +kernel, acks_resolve_named 0 ⟨[], 0, 0⟩ 5 (fun _ => 7) 1165 0 ⟨[], 0, 0⟩ 5000
    swappedAcks swappedAcks_timely (by decide +kernel)⟩

/-! ### A stale acknowledgement

Everything the sender keeps was stamped this instant and nothing was overtaken, so a pass
finds nothing overdue and fills the window.
-/

structure Quiet (now contig : ℕ) (out : OutTransfer) : Prop where
  released : out.refused = false ∧ out.announced = true ∧ out.announceAcked = true
  contig_eq : out.contiguousAcked = contig
  highest_eq : out.highestAcked = contig
  word : out.nextSeq ≤ contig + transferWindow ∧ contig + transferWindow + 3 < 2 ^ 32
  stamped : ∀ n, contig ≤ n → n < out.nextSeq → out.stamp n = now

section Quiet
variable {now contig : ℕ} {out : OutTransfer}

theorem Quiet.nothing_overdue (h : Quiet now contig out) (rto lossDelay fromSeq : ℕ) :
    out.oldestOverdue now rto lossDelay fromSeq = none := by
  rw [oldestOverdue, List.find?_eq_none]
  intro n hn
  have hcontig := h.contig_eq
  have hword := h.word
  rw [List.mem_range'_1] at hn
  have hstamp := h.stamped n (by omega) (by omega)
  have hreach : ¬ u32 (n + lossPacketThreshold) ≤ out.highestAcked := by
    rw [h.highest_eq, u32, lossPacketThreshold, Nat.mod_eq_of_lt (by omega)]
    omega
  have hbelow : ¬ n < out.highestAcked := by
    rw [h.highest_eq]
    omega
  simp [overdue, hstamp, hreach, hbelow]

theorem Quiet.sent (h : Quiet now contig out) (hroom : out.nextSeq < contig + transferWindow) :
    Quiet now contig { out.markSent out.nextSeq now with nextSeq := out.nextSeq + 1 } := by
  refine ⟨h.released, h.contig_eq, h.highest_eq, ⟨hroom, h.word.2⟩, ?_⟩
  intro n hle hlt
  show (out.markSent out.nextSeq now).stamp n = now
  rw [markSent_stamp]
  split
  · rfl
  · next hcell =>
    apply h.stamped n hle
    apply lt_of_le_of_ne (Nat.le_of_lt_succ hlt)
    rintro rfl
    exact hcell rfl

/-- A peer whose pacing is not running yet and whose budget holds `left` more packets. -/
def Spare (peer : PeerBudget) (left : ℕ) : Prop :=
  peer.rtt.srttMicros = 0 ∧ peer.theirGrant = 0 ∧
    peer.bytesInFlight + left * Wire.maxWirePacketSize ≤ peer.congestionBudget

theorem wireSizeForSeq_le (length seq : ℕ) : wireSizeForSeq length seq ≤ Wire.maxWirePacketSize := by
  have := InTransfer.payloadAt_le length seq
  rw [transferStride_eq] at this
  simp only [wireSizeForSeq, transferWireSize, Wire.wireSecureHeadSize, Wire.wirePeerTagSize,
    Wire.wireSecureChannelSize, transferWireHeaderSize, Wire.wireTagSize, Wire.maxWirePacketSize]
  omega

variable {t : Turn}

theorem Quiet.pick (h : Quiet now contig t.out) (rto lossDelay : ℕ) :
    t.pick now rto lossDelay = ({ t with overdueClear := true },
      if t.out.packetCount ≤ t.out.nextSeq ∨ contig + transferWindow ≤ t.out.nextSeq then none
      else some t.out.nextSeq) := by
  rw [Turn.pick, h.nothing_overdue, ite_self, h.contig_eq]

theorem Quiet.attempt (h : Quiet now contig t.out) {left : ℕ} (rto lossDelay : ℕ)
    (hcount : contig + transferWindow ≤ t.out.packetCount) (hspare : Spare t.peer (left + 1))
    (hqueued : t.queued < packetsPerPass) (hroom : t.out.nextSeq < contig + transferWindow) :
    t.attempt now rto lossDelay = { t with overdueClear := true }.send now t.out.nextSeq := by
  obtain ⟨hpacing, hgrant, hbudget⟩ := hspare
  rw [Nat.succ_mul] at hbudget
  have hsize := wireSizeForSeq_le t.out.length t.out.nextSeq
  have hallows : transferBudgetAllows t.peer (wireSizeForSeq t.out.length t.out.nextSeq) = true := by
    rw [transferBudgetAllows, Bool.and_eq_true, decide_eq_true_eq, decide_eq_true_eq]
    exact ⟨by omega, .inl hgrant⟩
  have hpaced : transferPacingAllows t.peer now (wireSizeForSeq t.out.length t.out.nextSeq) =
      (t.peer, true) := by
    rw [transferPacingAllows, if_pos hpacing]
  rw [Turn.attempt, h.pick, if_neg (by omega)]
  simp only [Turn.offer, hpaced, hallows, Nat.not_le.mpr hqueued, if_false, and_false,
    Bool.true_eq_false]

theorem Quiet.attempt_stops (h : Quiet now contig t.out) (rto lossDelay : ℕ)
    (hfull : contig + transferWindow ≤ t.out.nextSeq) :
    t.attempt now rto lossDelay = { t with overdueClear := true, stopped := true } := by
  rw [Turn.attempt, h.pick, if_pos (.inr hfull)]

theorem rounds_stopped (h : t.stopped = true) (rto lossDelay left : ℕ) :
    Turn.rounds now rto lossDelay left t = t := by
  cases left with
  | zero => rfl
  | succ left => rw [Turn.rounds, if_pos h]

/-- A pass over a quiet window sends new packets until the window or the pass is full. -/
theorem Quiet.rounds (rto lossDelay left : ℕ) (h : Quiet now contig t.out)
    (hcount : contig + transferWindow ≤ t.out.packetCount) (hspare : Spare t.peer left)
    (hqueued : t.queued + left ≤ packetsPerPass) (hrun : t.stopped = false) :
    Quiet now contig (Turn.rounds now rto lossDelay left t).out ∧
      (Turn.rounds now rto lossDelay left t).out.packetCount = t.out.packetCount ∧
      (Turn.rounds now rto lossDelay left t).out.nextSeq =
        min (t.out.nextSeq + left) (contig + transferWindow) := by
  induction left generalizing t with
  | zero => exact ⟨h, rfl, (min_eq_left h.word.1).symm⟩
  | succ left ih =>
    rw [Turn.rounds, if_neg (by simp [hrun])]
    by_cases hroom : t.out.nextSeq < contig + transferWindow
    · have hsize := wireSizeForSeq_le t.out.length t.out.nextSeq
      rw [h.attempt rto lossDelay hcount hspare (by omega) hroom]
      obtain ⟨hpacing, hgrant, hbudget⟩ := hspare
      rw [Nat.succ_mul] at hbudget
      have hout : ({ t with overdueClear := true }.send now t.out.nextSeq).out =
          { t.out.markSent t.out.nextSeq now with nextSeq := t.out.nextSeq + 1 } := if_pos rfl
      have hpeer : ({ t with overdueClear := true }.send now t.out.nextSeq).peer =
          transferSpendFirst t.peer (wireSizeForSeq t.out.length t.out.nextSeq) := if_pos rfl
      have hnext := ih (t := { t with overdueClear := true }.send now t.out.nextSeq)
        (by rw [hout]; exact h.sent hroom) (by rw [hout]; exact hcount)
        (by
          rw [hpeer]
          exact ⟨hpacing, hgrant, by simp only [transferSpendFirst]; omega⟩)
        (by show t.queued + 1 + left ≤ _; omega) hrun
      rw [hout] at hnext
      obtain ⟨hquiet, hpackets, hseq⟩ := hnext
      refine ⟨hquiet, hpackets, ?_⟩
      rw [hseq]
      congr 1
      show t.out.nextSeq + 1 + left = _
      omega
    · have hfull : contig + transferWindow ≤ t.out.nextSeq := Nat.le_of_not_lt hroom
      rw [h.attempt_stops rto lossDelay hfull, rounds_stopped rfl]
      refine ⟨h, rfl, ?_⟩
      have := h.word.1
      show t.out.nextSeq = _
      omega

theorem Quiet.passes (h : Quiet now contig l.sender)
    (hcount : contig + transferWindow ≤ l.sender.packetCount) (hsending : l.sending = true)
    {peer : PeerBudget} (hspare : Spare peer packetsPerPass) (times : Intervals) (k : ℕ) :
    let l' := run step l (List.replicate k (.pass peer 0 times now))
    Quiet now contig l'.sender ∧
      l'.sender.nextSeq = min (l.sender.nextSeq + packetsPerPass * k) (contig + transferWindow) ∧
      l'.sending = true ∧ l'.receiver = l.receiver ∧ l'.uses = l.uses ∧ ∀ p ∈ l.net, p ∈ l'.net := by
  induction k generalizing l with
  | zero => exact ⟨h, (min_eq_left h.word.1).symm, hsending, rfl, rfl, fun _ hp => hp⟩
  | succ k ih =>
    intro l'
    obtain ⟨hrefused, hannounced, hacked⟩ := h.released
    have hpass : l.step (.pass peer 0 times now) = l.pass peer 0 times now := if_pos hsending
    have hturn : (Turn.fresh peer l.sender 0).run times now =
        Turn.rounds now (peer.rtt.baseTimeout times.retryInterval times.ackDelay)
          (peer.rtt.lossDelayMicros times.retryInterval) packetsPerPass
          (Turn.fresh peer l.sender 0) := by
      simp [Turn.run, Turn.fresh, hrefused, hannounced, hacked]
    obtain ⟨hquiet, hpackets, hseq⟩ := Quiet.rounds
      (peer.rtt.baseTimeout times.retryInterval times.ackDelay)
      (peer.rtt.lossDelayMicros times.retryInterval) packetsPerPass
      (t := Turn.fresh peer l.sender 0) h hcount hspare le_rfl rfl
    rw [← hturn] at hquiet hpackets hseq
    have hrest := ih (l := l.pass peer 0 times now) hquiet (hcount.trans_eq hpackets.symm) hsending
    obtain ⟨hquiet', hseq', hsending', hreceiver, huses, hnet⟩ := hrest
    have hl' : l' = run step (l.pass peer 0 times now) (List.replicate k (.pass peer 0 times now)) := by
      show run step l (_ :: _) = _
      rw [run_cons, hpass]
    rw [hl']
    refine ⟨hquiet', ?_, hsending', hreceiver, huses, ?_⟩
    · rw [hseq']
      have hmid : (l.pass peer 0 times now).sender.nextSeq =
          min (l.sender.nextSeq + packetsPerPass) (contig + transferWindow) := hseq
      rw [hmid, Nat.mul_succ]
      omega
    · intro p hp
      exact hnet p (List.mem_append_left _ hp)

end Quiet

/-- Packets 1 and 0 arrive in that order and the second acknowledgement is answered first. -/
def overtakenRun : List Event :=
  [.pass idlePeer 0 ⟨1000, 0⟩ 1, .arrive (.announce 5 (2000 * 1163) transferStride) true, .allow,
    .answer (.ack 5 0 (List.replicate transferWindow false)) 1, .pass idlePeer 0 ⟨1000, 0⟩ 1,
    .arrive (.data 5 1 (List.replicate 1163 7)) true,
    .arrive (.data 5 0 (List.replicate 1163 7)) true,
    .answer (.ack 5 2 (List.replicate transferWindow false)) 1]

def staleAck : Packet := .ack 5 0 onlySecond

def longTransfer : Link :=
  start (.start 0 ⟨[], 0, 0⟩ 5 (fun _ => 7) (2000 * 1163)) 0 ⟨[], 0, 0⟩ (2 ^ 30)

def overtaken : Link := run step longTransfer overtakenRun

theorem overtaken_facts : overtaken.sender.refused = false ∧ overtaken.sender.announced = true ∧
    overtaken.sender.announceAcked = true ∧ overtaken.sender.contiguousAcked = 2 ∧
    overtaken.sender.highestAcked = 2 ∧ overtaken.sender.nextSeq = 64 ∧
    overtaken.sender.packetCount = 2000 ∧ overtaken.sending = true ∧ overtaken.uses = 1 ∧
    staleAck ∈ overtaken.net ∧
    overtaken.receiver.record.map (fun t => t.buffer (1025 * transferStride)) = some none ∧
    ∀ n < 64, 2 ≤ n → overtaken.sender.stamp n = 1 := by
  decide +kernel

theorem overtaken_quiet : Quiet 1 2 overtaken.sender := by
  obtain ⟨hrefused, hannounced, hacked, hcontig, hhighest, hnext, -, -, -, -, -, hstamp⟩ :=
    overtaken_facts
  refine ⟨⟨hrefused, hannounced, hacked⟩, hcontig, hhighest, ?_, ?_⟩
  · rw [hnext]
    decide
  · intro n hle hlt
    exact hstamp n (by omega) hle

/-- The late bitmap names sequence 1 and resolves 1025, which shares its cell. -/
theorem Quiet.heed_stale (h : Quiet 1 2 l.sender) (hnext : l.sender.nextSeq = 1026)
    (hpackets : l.sender.packetCount = 2000) :
    (l.heedAck 0 onlySecond 1).sender.contiguousAcked = 2 ∧
      (l.heedAck 0 onlySecond 1).sender.nextSeq = 1026 ∧
      (l.heedAck 0 onlySecond 1).sender.isAcked 1025 = true ∧ 1 ∈ (l.heedAck 0 onlySecond 1).refunded := by
  have hcell : slot transferWindow 1025 = slot transferWindow 1 := by decide
  have hseqs : l.sender.ackSeqs (min 0 l.sender.packetCount) onlySecond = [1] := by
    rw [ackSeqs, hpackets, Nat.zero_min, Nat.zero_sub, List.range'_zero, List.nil_append]
    decide +kernel
  have hstamp : l.sender.stamp 1 = 1 := by
    have hlast := h.stamped 1025 (by decide) (by rw [hnext]; decide)
    rwa [stamp, hcell] at hlast
  have hfreed := l.sender.onAck_freed 1 0 onlySecond (by rw [hseqs]; exact List.nodup_singleton _)
  refine ⟨?_, ?_, ?_, ?_⟩
  · rw [heedAck, onAck_contiguousAcked, h.contig_eq, Nat.zero_min]
    rfl
  · rw [← hnext]
    exact congrArg (fun f => f.2.2.2.2.2.2.1) (l.sender.onAck_frame 1 0 onlySecond)
  · rw [heedAck, onAck_isAcked, hseqs, if_pos (by rw [hcell]; exact List.mem_singleton_self _)]
  · apply List.mem_append_right
    rw [hfreed, hseqs]
    simp [hstamp]

/-- Sixteen passes fill the window, then the late acknowledgement arrives. -/
def fillThenStale : List Event :=
  List.replicate 16 (.pass idlePeer 0 ⟨1000, 0⟩ 1) ++ [.answer staleAck 1]

theorem Quiet.fill_then_stale (h : Quiet 1 2 l.sender) (hnext : l.sender.nextSeq = 64)
    (hcount : l.sender.packetCount = 2000) (hsending : l.sending = true) (hmem : staleAck ∈ l.net) :
    ∃ full : Link, run step l fillThenStale = full.heedAck 0 onlySecond 1 ∧ Quiet 1 2 full.sender ∧
      full.sender.nextSeq = 1026 ∧ full.sender.packetCount = 2000 ∧ full.receiver = l.receiver ∧
      full.uses = l.uses := by
  have hspare : Spare idlePeer packetsPerPass := ⟨rfl, rfl, by decide⟩
  obtain ⟨hquiet, hnext', hsending', hreceiver, huses, hnet⟩ := Quiet.passes h
    (by rw [hcount]; decide) hsending hspare ⟨1000, 0⟩ 16
  have hterms := run_terms l (List.replicate 16 (.pass idlePeer 0 ⟨1000, 0⟩ 1))
  refine ⟨run step l (List.replicate 16 (.pass idlePeer 0 ⟨1000, 0⟩ 1)), ?_, hquiet, ?_, ?_,
    hreceiver, huses⟩
  · rw [fillThenStale, run_append, run_cons, run_nil, step, if_pos ⟨hnet _ hmem, hsending'⟩, staleAck,
      heed]
  · rw [hnext', hnext]
    decide
  · exact (terms_eq_iff.mp hterms).2.2.trans hcount

/-- The window is filled up to sequence 1025.  The late acknowledgement of sequence 1 then marks
1025, which shares its cell, as acknowledged: the receiver has no byte of it. -/
theorem stale_ack_resolves_unplaced :
    (run step longTransfer (overtakenRun ++ fillThenStale)).uses = 1 ∧
      (run step longTransfer (overtakenRun ++ fillThenStale)).sender.contiguousAcked = 2 ∧
      (run step longTransfer (overtakenRun ++ fillThenStale)).sender.nextSeq = 1026 ∧
      (run step longTransfer (overtakenRun ++ fillThenStale)).sender.isAcked 1025 = true ∧
      1 ∈ (run step longTransfer (overtakenRun ++ fillThenStale)).refunded ∧
      (run step longTransfer (overtakenRun ++ fillThenStale)).receiver.record.map
        (fun t => t.buffer (1025 * transferStride)) = some none := by
  obtain ⟨-, -, -, -, -, hnext, hcount, hsending, huses, hmem, hbuffer, -⟩ := overtaken_facts
  obtain ⟨full, hrun, hquiet, hfull, hpackets, hreceiver, huses'⟩ :=
    overtaken_quiet.fill_then_stale hnext hcount hsending hmem
  have hl : run step longTransfer (overtakenRun ++ fillThenStale) = full.heedAck 0 onlySecond 1 :=
    (run_append step longTransfer overtakenRun fillThenStale).trans hrun
  obtain ⟨hcontig, hsent, hacked, hrefund⟩ := hquiet.heed_stale hfull hpackets
  rw [hl]
  refine ⟨huses'.trans huses, hcontig, hsent, hacked, hrefund, ?_⟩
  rw [heedAck, hreceiver]
  exact hbuffer

end Link

end BcpFlux.Transfer
