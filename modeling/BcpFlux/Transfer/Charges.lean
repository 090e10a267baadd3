import BcpFlux.Flow.Charges
import BcpFlux.Transfer.Ownership

/-! # What a sending transfer has charged to its peer

A sequence is charged when it is first sent and given back when an acknowledgement or a
refusal clears its stamp.  `owes` reads the charges off the stamps between the two
cursors.  The announcement is charged like a first transmission and has no stamp, so
nothing ever gives it back.
-/

namespace BcpFlux.Transfer
open Library Peer Function

def seqCharge (length seq : ℕ) : ℕ × ℕ := (wireSizeForSeq length seq, 1)

def seqCharges (length : ℕ) (seqs : List ℕ) : ℕ × ℕ := (seqs.map (seqCharge length)).sum

def announceCharge : ℕ × ℕ := (transferWireSize transferAnnounceSize, 1)

/-- The charges of the sequences in `[lo, hi)` that have a stamp. -/
def owed (length lo hi : ℕ) (stamp : ℕ → ℕ) : ℕ × ℕ :=
  listed id (fun seq => if stamp seq = 0 then 0 else seqCharge length seq)
    (List.range' lo (hi - lo))

section Owed
variable {length lo hi seq : ℕ} {stamp stamp' : ℕ → ℕ}

theorem mem_window {n : ℕ} (hn : n ∈ List.range' lo (hi - lo)) : lo ≤ n ∧ n < hi := by
  rw [List.mem_range'_1] at hn
  omega

theorem owed_congr (h : ∀ n, lo ≤ n → n < hi → stamp' n = stamp n) :
    owed length lo hi stamp' = owed length lo hi stamp := by
  apply listed_congr
  intro n hn
  obtain ⟨hlo, hhi⟩ := mem_window hn
  rw [id, h n hlo hhi]

theorem owed_clear (hlo : lo ≤ seq) (hhi : seq < hi) (hset : stamp seq ≠ 0)
    (hclear : stamp' seq = 0) (hother : ∀ n, lo ≤ n → n < hi → n ≠ seq → stamp' n = stamp n) :
    owed length lo hi stamp' + seqCharge length seq = owed length lo hi stamp := by
  have hmem : seq ∈ (List.range' lo (hi - lo)).map id := by
    rw [List.map_id, List.mem_range'_1]
    omega
  have hnodup : ((List.range' lo (hi - lo)).map id).Nodup := by
    rw [List.map_id]
    exact List.nodup_range'
  have hupdate : listed id (update
      (fun seq => if stamp seq = 0 then 0 else seqCharge length seq) seq 0)
      (List.range' lo (hi - lo)) + (if stamp seq = 0 then 0 else seqCharge length seq) =
      owed length lo hi stamp + 0 := listed_update hnodup hmem 0
  have hsame : owed length lo hi stamp' = listed id (update
      (fun seq => if stamp seq = 0 then 0 else seqCharge length seq) seq 0)
      (List.range' lo (hi - lo)) := by
    apply listed_congr
    intro n hn
    obtain ⟨hnlo, hnhi⟩ := mem_window hn
    by_cases heq : n = seq
    · rw [id, heq, update_self, if_pos hclear]
    · rw [id, update_of_ne heq, hother n hnlo hnhi heq]
  rw [if_neg hset, add_zero, ← hsame] at hupdate
  exact hupdate

theorem owed_from {mid : ℕ} (hlo : lo ≤ mid) (hhi : mid ≤ hi)
    (h : ∀ n, lo ≤ n → n < mid → stamp n = 0) :
    owed length lo hi stamp = owed length mid hi stamp := by
  have hsplit : List.range' lo (hi - lo) =
      List.range' lo (mid - lo) ++ List.range' mid (hi - mid) := by
    have happend := List.range'_append_1 (s := lo) (m := mid - lo) (n := hi - mid)
    rw [show lo + (mid - lo) = mid by omega, show mid - lo + (hi - mid) = hi - lo by omega]
      at happend
    exact happend.symm
  have hzero : listed id (fun seq => if stamp seq = 0 then 0 else seqCharge length seq)
      (List.range' lo (mid - lo)) = 0 := by
    rw [listed]
    apply List.sum_eq_zero
    intro charge hcharge
    obtain ⟨n, hn, rfl⟩ := List.mem_map.mp hcharge
    obtain ⟨hnlo, hnmid⟩ := mem_window hn
    rw [id, if_pos (h n hnlo hnmid)]
  rw [listed] at hzero
  rw [owed, owed, hsplit, listed, List.map_append, List.sum_append, hzero, zero_add]
  rfl

theorem owed_succ (hle : lo ≤ hi) (hset : stamp hi ≠ 0) :
    owed length lo (hi + 1) stamp = owed length lo hi stamp + seqCharge length hi := by
  have hsplit : List.range' lo (hi + 1 - lo) = List.range' lo (hi - lo) ++ [hi] := by
    rw [show hi + 1 - lo = hi - lo + 1 by omega, List.range'_concat]
    rw [Nat.one_mul, show lo + (hi - lo) = hi by omega]
  rw [owed, hsplit, listed, List.map_append, List.sum_append, List.map_singleton,
    List.sum_singleton, id, if_neg hset]
  rfl

theorem owed_nil (h : hi ≤ lo) : owed length lo hi stamp = 0 := by
  rw [owed, Nat.sub_eq_zero_of_le h]
  rfl

theorem owed_le : (owed length lo hi stamp).2 ≤ (owed length lo hi stamp).1 := by
  refine listed_induction (P := fun charge : ℕ × ℕ => charge.2 ≤ charge.1) (Nat.le_refl 0)
    (fun _ _ => Nat.add_le_add) ?_
  intro seq _
  split
  · exact Nat.le_refl 0
  · have htag : 1 ≤ Wire.wireTagSize := by decide
    exact htag.trans (Nat.le_add_left _ _)

end Owed

/-! ## Clearing stamps -/

section Clearing
variable {σ : Type*} (stampOf : σ → ℕ → ℕ) (freedOf : σ → List ℕ) (f : σ → ℕ → σ)
  (length lo hi : ℕ)

/-- A loop that clears the cells of a list of sequences and notes those that had a stamp.
Where a stamp belongs to a sequence of the window, and no sequence of the list shares the
cell of another one in it, what the window owed is what is noted and what it still owes. -/
theorem foldl_clears
    (hcell : ∀ p m n, slot transferWindow m = slot transferWindow n → stampOf p m = stampOf p n)
    (hstamp : ∀ p seq n, stampOf (f p seq) n =
      if slot transferWindow n = slot transferWindow seq then 0 else stampOf p n)
    (hfreed : ∀ p seq, freedOf (f p seq) =
      if stampOf p seq = 0 then freedOf p else freedOf p ++ [seq])
    (seqs : List ℕ) (p : σ)
    (hidle : ∀ n, stampOf p n ≠ 0 →
      ∃ m, lo ≤ m ∧ m < hi ∧ slot transferWindow m = slot transferWindow n)
    (hown : ∀ seq ∈ seqs, ∀ n, lo ≤ n → n < hi →
      slot transferWindow n = slot transferWindow seq → n = seq) :
    owed length lo hi (stampOf (seqs.foldl f p)) + seqCharges length (freedOf (seqs.foldl f p)) =
      owed length lo hi (stampOf p) + seqCharges length (freedOf p) := by
  induction seqs generalizing p with
  | nil => rfl
  | cons seq seqs ih =>
    have hidle' : ∀ n, stampOf (f p seq) n ≠ 0 →
        ∃ m, lo ≤ m ∧ m < hi ∧ slot transferWindow m = slot transferWindow n := by
      intro n hn
      rw [hstamp] at hn
      split at hn
      · exact absurd rfl hn
      · exact hidle n hn
    rw [List.foldl_cons, ih (f p seq) hidle' fun s hs => hown s (List.mem_cons_of_mem seq hs),
      hfreed]
    by_cases hzero : stampOf p seq = 0
    · have hsame : owed length lo hi (stampOf (f p seq)) = owed length lo hi (stampOf p) := by
        apply owed_congr
        intro n _ _
        rw [hstamp]
        split
        · next hn => rw [hcell p n seq hn, hzero]
        · rfl
      rw [hsame, if_pos hzero]
    · obtain ⟨m, hlo, hhi, hslot⟩ := hidle seq hzero
      obtain rfl := hown seq List.mem_cons_self m hlo hhi hslot
      have hclear : owed length lo hi (stampOf (f p m)) + seqCharge length m =
          owed length lo hi (stampOf p) := by
        apply owed_clear hlo hhi hzero
        · rw [hstamp, if_pos rfl]
        · intro n hnlo hnhi hne
          rw [hstamp, if_neg]
          exact fun hslot => hne (hown m List.mem_cons_self n hnlo hnhi hslot)
      rw [if_neg hzero, ← hclear, seqCharges, seqCharges, List.map_append, List.sum_append,
        List.map_singleton, List.sum_singleton]
      abel

end Clearing

namespace OutTransfer

/-- What the transfer has charged to its peer for data. -/
def owes (out : OutTransfer) : ℕ × ℕ :=
  owed out.length out.contiguousAcked out.nextSeq out.stamp

/-- The stamps are those of the sequences between the cursors, which fit the ring. -/
structure Tallied (out : OutTransfer) : Prop where
  le : out.contiguousAcked ≤ out.nextSeq
  window : out.nextSeq ≤ out.contiguousAcked + transferWindow
  count : out.nextSeq ≤ out.packetCount
  idle : ∀ n, out.stamp n ≠ 0 → ∃ m, out.contiguousAcked ≤ m ∧ m < out.nextSeq ∧
    slot transferWindow m = slot transferWindow n
  refused : out.refused = true → ∀ n, out.stamp n = 0

/-- The acknowledgement names nothing that was not sent, and no cell its bitmap names belongs
to another sequence between the cursors. -/
def Answered (out : OutTransfer) (recvNext : ℕ) (bitmap : List Bool) : Prop :=
  min recvNext out.packetCount ≤ out.nextSeq ∧
    ∀ seq ∈ bitmapSeqs out.packetCount (min recvNext out.packetCount) bitmap,
      ∀ n ∈ out.openSeqs, slot transferWindow n = slot transferWindow seq → n = seq

instance (out : OutTransfer) (recvNext : ℕ) (bitmap : List Bool) :
    Decidable (out.Answered recvNext bitmap) := inferInstanceAs (Decidable (_ ∧ _))

variable {out : OutTransfer}

variable {n : ℕ}

theorem stamp_cell (out : OutTransfer) {m : ℕ}
    (h : slot transferWindow m = slot transferWindow n) : out.stamp m = out.stamp n := by
  rw [stamp, stamp, h]

theorem Tallied.inj (h : out.Tallied) {m : ℕ} (hm : out.contiguousAcked ≤ m)
    (hm' : m < out.nextSeq) (hn : out.contiguousAcked ≤ n) (hn' : n < out.nextSeq)
    (hslot : slot transferWindow m = slot transferWindow n) : m = n := by
  have hwindow := h.window
  rcases Nat.le_total m n with hle | hle
  · exact window_isPow2.slot_inj hle (by omega) hslot
  · exact (window_isPow2.slot_inj hle (by omega) hslot.symm).symm

theorem Tallied.owes_of_over (h : out.Tallied) (hover : out.over = true) : out.owes = 0 := by
  rcases (over_eq_true out).mp hover with hrefused | hacked
  · have hzero : out.owes = owed out.length out.nextSeq out.nextSeq out.stamp :=
      owed_from h.le (Nat.le_refl _) fun n _ _ => h.refused hrefused n
    rw [hzero, owed_nil (Nat.le_refl _)]
  · exact owed_nil (h.count.trans hacked)

section
variable (peerSlot : ℕ) (peerAddr : Address) (transferId : ℕ) (source : ℕ → UInt8) (length : ℕ)

theorem tallied_start : (start peerSlot peerAddr transferId source length).Tallied where
  le := Nat.le_refl 0
  window := Nat.zero_le _
  count := Nat.zero_le _
  idle := fun _ h => absurd rfl h
  refused := fun h => by cases h

theorem owes_start : (start peerSlot peerAddr transferId source length).owes = 0 := rfl

end

/-! ## Acknowledgements and refusals -/

theorem onAck_length (now recvNext : ℕ) (bitmap : List Bool) :
    (out.onAck recvNext bitmap now).1.length = out.length :=
  congrArg (fun f => f.2.2.2.2.1) (onAck_frame now out recvNext bitmap)

theorem onAck_nextSeq (now recvNext : ℕ) (bitmap : List Bool) :
    (out.onAck recvNext bitmap now).1.nextSeq = out.nextSeq :=
  congrArg (fun f => f.2.2.2.2.2.2.1) (onAck_frame now out recvNext bitmap)

theorem resolve_freed (now : ℕ) (p : OutTransfer × AckReport) (seq : ℕ) :
    (resolve now p seq).2.freed = if p.1.stamp seq = 0 then p.2.freed else p.2.freed ++ [seq] := by
  unfold resolve
  by_cases hzero : p.1.stamp seq = 0
  · simp [hzero]
  · simp [hzero]

variable {recvNext : ℕ} {bitmap : List Bool}

theorem mem_ackSeqs_own (h : out.Tallied)
    (hanswered : out.Answered recvNext bitmap) {seq : ℕ}
    (hseq : seq ∈ out.ackSeqs (min recvNext out.packetCount) bitmap)
    (hlo : out.contiguousAcked ≤ n) (hhi : n < out.nextSeq)
    (hslot : slot transferWindow n = slot transferWindow seq) : n = seq := by
  obtain ⟨hcursor, hbits⟩ := hanswered
  rcases List.mem_append.mp hseq with hseq | hseq
  · obtain ⟨hseqlo, hseqhi⟩ := mem_window hseq
    exact h.inj hlo hhi hseqlo (by omega) hslot
  · have hopen : n ∈ out.openSeqs := by
      rw [openSeqs, List.mem_range'_1]
      omega
    exact hbits seq hseq n hopen hslot

theorem onAck_owes (h : out.Tallied)
    (hanswered : out.Answered recvNext bitmap) (now : ℕ) :
    (out.onAck recvNext bitmap now).1.owes +
        seqCharges out.length (out.onAck recvNext bitmap now).2.1.freed = out.owes := by
  have hcursor := hanswered.1
  have hle := h.le
  have hfold := foldl_clears (fun p : OutTransfer × AckReport => p.1.stamp) (fun p => p.2.freed)
    (resolve now) out.length out.contiguousAcked out.nextSeq (fun p _ _ => p.1.stamp_cell)
    (fun p seq n => resolve_stamp now p seq n) (resolve_freed now)
    (out.ackSeqs (min recvNext out.packetCount) bitmap)
    ({ out with announceAcked := true }, .none) h.idle
    (fun seq hseq n hlo hhi hslot => mem_ackSeqs_own h hanswered hseq hlo hhi hslot)
  -- the cursor moves over cleared sequences only
  have hmoved : owed out.length out.contiguousAcked out.nextSeq
        (out.onAck recvNext bitmap now).1.stamp =
      owed out.length (max out.contiguousAcked (min recvNext out.packetCount)) out.nextSeq
        (out.onAck recvNext bitmap now).1.stamp := by
    apply owed_from (Nat.le_max_left _ _) (Nat.max_le.mpr ⟨hle, hcursor⟩)
    intro n hlo hhi
    rw [onAck_stamp, if_pos]
    apply List.mem_map_of_mem
    apply List.mem_append_left
    rw [List.mem_range'_1]
    omega
  have hstamps : (out.onAck recvNext bitmap now).1.stamp =
      ((out.ackSeqs (min recvNext out.packetCount) bitmap).foldl (resolve now)
        ({ out with announceAcked := true }, .none)).1.stamp := by
    funext n
    rw [onAck, barrier_eq]
    rfl
  rw [owes, onAck_length, onAck_nextSeq, onAck_contiguousAcked, ← hmoved, hstamps]
  exact hfold

theorem Tallied.onAck (h : out.Tallied)
    (hanswered : out.Answered recvNext bitmap) (now : ℕ) :
    (out.onAck recvNext bitmap now).1.Tallied where
  le := by
    rw [onAck_contiguousAcked, onAck_nextSeq]
    exact Nat.max_le.mpr ⟨h.le, hanswered.1⟩
  window := by
    rw [onAck_contiguousAcked, onAck_nextSeq]
    have hwindow := h.window
    omega
  count := by
    rw [onAck_nextSeq, onAck_packetCount]
    exact h.count
  idle := by
    intro n hn
    rw [onAck_stamp] at hn
    split at hn
    · exact absurd rfl hn
    · next hkept =>
      obtain ⟨m, hlo, hhi, hslot⟩ := h.idle n hn
      refine ⟨m, ?_, by rw [onAck_nextSeq]; exact hhi, hslot⟩
      rw [onAck_contiguousAcked]
      apply Nat.max_le.mpr ⟨hlo, ?_⟩
      by_contra hbelow
      apply hkept
      rw [← hslot]
      apply List.mem_map_of_mem
      apply List.mem_append_left
      rw [List.mem_range'_1]
      omega
  refused := by
    intro hrefused n
    rw [onAck_refused] at hrefused
    rw [onAck_stamp, h.refused hrefused n]
    split <;> rfl

theorem refuse_freed (p : OutTransfer × List ℕ) (seq : ℕ) :
    (refuse p seq).2 = if p.1.stamp seq = 0 then p.2 else p.2 ++ [seq] := by
  unfold refuse
  split <;> rfl

theorem Tallied.onRefused (h : out.Tallied) :
    out.onRefused.1.Tallied ∧
      out.onRefused.1.owes + seqCharges out.length out.onRefused.2.1 = out.owes := by
  by_cases hrefused : out.refused = true
  · rw [OutTransfer.onRefused, if_pos hrefused]
    exact ⟨h, add_zero _⟩
  · have hopen : out.refused = false := Bool.eq_false_of_not_eq_true hrefused
    have hstamp : ∀ n, out.onRefused.1.stamp n = 0 := by
      intro n
      rw [onRefused_stamp out hopen]
      by_contra hne
      split at hne
      · exact hne rfl
      · next hcell =>
        obtain ⟨m, hlo, hhi, hslot⟩ := h.idle n hne
        apply hcell
        rw [← hslot]
        apply List.mem_map_of_mem
        rw [openSeqs, List.mem_range'_1]
        omega
    have hfold := foldl_clears (fun p : OutTransfer × List ℕ => p.1.stamp) Prod.snd refuse
      out.length out.contiguousAcked out.nextSeq (fun p _ _ => p.1.stamp_cell) refuse_stamp
      refuse_freed out.openSeqs (out, []) h.idle (by
        intro seq hseq n hlo hhi hslot
        obtain ⟨hseqlo, hseqhi⟩ := mem_window hseq
        exact h.inj hlo hhi hseqlo hseqhi hslot)
    have heq := out.onRefused_eq
    constructor
    · rw [heq]
      exact ⟨h.le, h.window, h.count, fun n hn => absurd (hstamp n) hn, fun _ => hstamp⟩
    · have hloop : out.onRefused.1.stamp = (out.openSeqs.foldl refuse (out, [])).1.stamp ∧
          out.onRefused.2.1 = (out.openSeqs.foldl refuse (out, [])).2 := by
        rw [OutTransfer.onRefused, if_neg hrefused]
        exact ⟨rfl, rfl⟩
      have howes : out.onRefused.1.owes =
          owed out.length out.contiguousAcked out.nextSeq out.onRefused.1.stamp := by
        rw [heq]
        rfl
      rw [howes, hloop.1, hloop.2]
      exact hfold

/-! ## The send pass -/

theorem Tallied.resent (h : out.Tallied) (hrunning : out.refused = false) {seq now : ℕ}
    (hnow : 0 < now) (hstamp : out.stamp seq ≠ 0) :
    (out.markSent seq now).Tallied ∧ (out.markSent seq now).owes = out.owes := by
  have hstamps : ∀ n, (out.markSent seq now).stamp n = 0 ↔ out.stamp n = 0 := by
    intro n
    rw [markSent_stamp]
    split
    · next hcell =>
      rw [out.stamp_cell hcell]
      exact ⟨fun hzero => absurd hzero hnow.ne', fun hzero => absurd hzero hstamp⟩
    · exact Iff.rfl
  constructor
  · refine ⟨h.le, h.window, h.count, ?_, ?_⟩
    · intro n hn
      exact h.idle n (mt (hstamps n).mpr hn)
    · intro hrefused
      exact absurd (hrefused.symm.trans hrunning) Bool.noConfusion
  · have hfields : (out.markSent seq now).owes =
        owed out.length out.contiguousAcked out.nextSeq (out.markSent seq now).stamp := rfl
    rw [hfields, owes, owed, owed]
    apply listed_congr
    intro n _
    simp only [id, hstamps n]

theorem Tallied.sent (h : out.Tallied) (hrunning : out.refused = false) {now : ℕ} (hnow : 0 < now)
    (hcount : out.nextSeq < out.packetCount)
    (hwindow : out.nextSeq < out.contiguousAcked + transferWindow) :
    let out' := { out.markSent out.nextSeq now with nextSeq := out.nextSeq + 1 }
    out'.Tallied ∧ out'.owes = out.owes + seqCharge out.length out.nextSeq := by
  intro out'
  have hle := h.le
  have hstamp : ∀ n, out'.stamp n =
      if slot transferWindow n = slot transferWindow out.nextSeq then now else out.stamp n :=
    markSent_stamp out out.nextSeq now
  have hself : out'.stamp out.nextSeq ≠ 0 := by
    rw [hstamp, if_pos rfl]
    exact hnow.ne'
  have hother : ∀ n, out.contiguousAcked ≤ n → n < out.nextSeq → out'.stamp n = out.stamp n := by
    intro n hlo hhi
    rw [hstamp, if_neg]
    intro hcell
    have heq := window_isPow2.slot_inj (Nat.le_of_lt hhi) (by omega) hcell
    omega
  constructor
  · refine ⟨Nat.le_succ_of_le hle, hwindow, hcount, ?_, ?_⟩
    · intro n hn
      rw [hstamp] at hn
      split at hn
      · next hcell => exact ⟨out.nextSeq, hle, Nat.lt_succ_self _, hcell.symm⟩
      · obtain ⟨m, hlo, hhi, hslot⟩ := h.idle n hn
        exact ⟨m, hlo, Nat.lt_succ_of_lt hhi, hslot⟩
    · intro hrefused
      exact absurd (hrefused.symm.trans hrunning) Bool.noConfusion
  · have hsucc : out'.owes = owed out.length out.contiguousAcked out.nextSeq out'.stamp +
        seqCharge out.length out.nextSeq := owed_succ hle hself
    rw [hsucc, owed_congr hother]
    rfl

end OutTransfer

def Packet.isAnnounce : Packet → Bool
  | .announce .. => true
  | _ => false

namespace Turn
open OutTransfer

/-- Where a turn stands that started from `out` on the budget `peer`: the data it sent is
charged and owed, and each announcement is charged on top. -/
structure Accounted (peer : PeerBudget) (out : OutTransfer) (t : Turn) : Prop where
  tallied : t.out.Tallied
  running : t.out.refused = false
  account : t.charged + out.owes =
    peer.charged + t.out.owes + (t.packets.countP Packet.isAnnounce) • announceCharge

variable {peer : PeerBudget} {out : OutTransfer} {t t' : Turn} {now : ℕ}

theorem countP_data (packets : List Packet) (id seq : ℕ) (payload : List UInt8) :
    (packets ++ [Packet.data id seq payload]).countP Packet.isAnnounce =
      packets.countP Packet.isAnnounce := by
  rw [List.countP_append]
  rfl

theorem tallied_of_books {out' : OutTransfer} (h : out.Tallied)
    (hcursor : out'.contiguousAcked = out.contiguousAcked) (hnext : out'.nextSeq = out.nextSeq)
    (hcount : out'.packetCount = out.packetCount) (hsent : out'.sentAt = out.sentAt)
    (hrefused : out'.refused = out.refused) : out'.Tallied := by
  have hstamp : out'.stamp = out.stamp := by
    funext n
    rw [stamp, stamp, hsent]
  refine ⟨?_, ?_, ?_, ?_, ?_⟩
  · rw [hcursor, hnext]
    exact h.le
  · rw [hcursor, hnext]
    exact h.window
  · rw [hnext, hcount]
    exact h.count
  · rw [hstamp, hcursor, hnext]
    exact h.idle
  · rw [hstamp, hrefused]
    exact h.refused

theorem Accounted.sends (h : Accounted peer out t) (hnow : 0 < now) (hsends : Sends now t t') :
    Accounted peer out t' := by
  obtain ⟨htallied, hrunning, haccount⟩ := h
  cases hsends with
  | nothing hout hpackets hcharged =>
    exact ⟨hout ▸ htallied, hout ▸ hrunning, by rw [hout, hpackets, hcharged]; exact haccount⟩
  | unanswered hout hpackets hcharged =>
    have htallied' : t'.out.Tallied := by
      rw [hout]
      exact tallied_of_books htallied rfl rfl rfl rfl rfl
    exact ⟨htallied', by rw [hout]; exact hrunning, by rw [hout, hpackets, hcharged]; exact haccount⟩
  | announced hout hpackets hcharged =>
    have htallied' : t'.out.Tallied := by
      rw [hout]
      exact tallied_of_books htallied rfl rfl rfl rfl rfl
    refine ⟨htallied', by rw [hout]; exact hrunning, ?_⟩
    have hcount : t'.packets.countP Packet.isAnnounce = t.packets.countP Packet.isAnnounce + 1 := by
      rw [hpackets, List.countP_append]
      rfl
    have howes : t'.out.owes = t.out.owes := by
      rw [hout]
      rfl
    have hcharged' : t'.charged = t.charged + announceCharge := hcharged
    rw [howes, hcount, hcharged', succ_nsmul]
    calc t.charged + announceCharge + out.owes
        = t.charged + out.owes + announceCharge := by abel
      _ = peer.charged + t.out.owes + t.packets.countP Packet.isAnnounce • announceCharge +
          announceCharge := by rw [haccount]
      _ = _ := by abel
  | resent seq hle hlt hstamp hout hpackets hcharged =>
    obtain ⟨htallied', howes⟩ := htallied.resent hrunning hnow hstamp
    refine ⟨hout ▸ htallied', by rw [hout]; exact hrunning, ?_⟩
    rw [hout, howes, hpackets, countP_data, hcharged]
    exact haccount
  | sent hcount hwindow hout hpackets hcharged =>
    obtain ⟨htallied', howes⟩ := htallied.sent hrunning hnow hcount hwindow
    refine ⟨hout ▸ htallied', by rw [hout]; exact hrunning, ?_⟩
    have hcharged' : t'.charged = t.charged + seqCharge t.out.length t.out.nextSeq := hcharged
    rw [hout, howes, hpackets, countP_data, hcharged']
    calc t.charged + seqCharge t.out.length t.out.nextSeq + out.owes
        = t.charged + out.owes + seqCharge t.out.length t.out.nextSeq := by abel
      _ = peer.charged + t.out.owes + t.packets.countP Packet.isAnnounce • announceCharge +
          seqCharge t.out.length t.out.nextSeq := by rw [haccount]
      _ = _ := by abel

/-- A whole turn charges the data it adds to what the transfer owes, and its announcements. -/
theorem run_accounted (htallied : out.Tallied) (hnow : 0 < now) (peer : PeerBudget) (queued : ℕ)
    (times : Intervals) :
    ((fresh peer out queued).run times now).out.Tallied ∧
      ((fresh peer out queued).run times now).charged + out.owes =
        peer.charged + ((fresh peer out queued).run times now).out.owes +
          (((fresh peer out queued).run times now).packets.countP Packet.isAnnounce) •
            announceCharge := by
  have hstart : (fresh peer out queued).charged + out.owes = peer.charged + out.owes +
      (0 : ℕ) • announceCharge := by
    rfl
  by_cases hrefused : out.refused = true
  · have hsame : (fresh peer out queued).run times now = fresh peer out queued := if_pos hrefused
    rw [hsame]
    exact ⟨htallied, hstart⟩
  · have hrun := run_induction (Accounted peer out) now (fun _ _ hsends h => h.sends hnow hsends)
      (fresh peer out queued) times ⟨htallied, Bool.eq_false_of_not_eq_true hrefused, hstart⟩
    exact ⟨hrun.tallied, hrun.account⟩

/-! ### The budget itself is left alone -/

theorem refillTransferPacing_budget (peer : PeerBudget) (now : ℕ) :
    (refillTransferPacing peer now).congestionBudget = peer.congestionBudget := by
  unfold refillTransferPacing
  dsimp only
  split_ifs <;> rfl

theorem transferPacingAllows_budget (peer : PeerBudget) (now wireSize : ℕ) :
    (transferPacingAllows peer now wireSize).1.congestionBudget = peer.congestionBudget := by
  unfold transferPacingAllows
  split_ifs
  · rfl
  · exact refillTransferPacing_budget peer now

theorem offer_budget (t : Turn) (now seq : ℕ) :
    (t.offer now seq).peer.congestionBudget = t.peer.congestionBudget := by
  have hpaced := transferPacingAllows_budget t.peer now (wireSizeForSeq t.out.length seq)
  unfold offer
  dsimp only
  split_ifs
  · exact hpaced
  · exact hpaced
  · exact hpaced
  · rw [send]
    split <;> exact hpaced

theorem attempt_budget (t : Turn) (now rto lossDelay : ℕ) :
    (t.attempt now rto lossDelay).peer.congestionBudget = t.peer.congestionBudget := by
  obtain ⟨-, -, hpeer, -⟩ := t.pick_spec now rto lossDelay
  unfold attempt
  dsimp only
  split
  · rw [← hpeer]
  · rw [offer_budget, hpeer]

theorem rounds_budget (now rto lossDelay left : ℕ) (t : Turn) :
    (rounds now rto lossDelay left t).peer.congestionBudget = t.peer.congestionBudget := by
  induction left generalizing t with
  | zero => rfl
  | succ left ih =>
    rw [rounds]
    split
    · rfl
    · rw [ih, attempt_budget]

theorem run_budget (t : Turn) (times : Intervals) (now : ℕ) :
    (t.run times now).peer.congestionBudget = t.peer.congestionBudget := by
  have hpaced := transferPacingAllows_budget t.peer now (transferWireSize transferAnnounceSize)
  unfold run
  dsimp only
  split_ifs
  · rfl
  · unfold offerAnnounce
    dsimp only
    split_ifs
    · rfl
    · exact hpaced
    · exact hpaced
    · exact hpaced
  · rfl
  · rfl
  · exact rounds_budget now _ _ packetsPerPass t

end Turn

/-! ## The transfers of one peer -/

namespace Side
section Rows
variable {ρ : Type} {peerOf : ρ → ℕ} {s : Side ρ} {p q slot : ℕ}

def entries (s : Side ρ) (p : ℕ) : List DirEntry := (s.dir p).filterMap id

theorem listed_of_find {transferId : ℕ} (hfind : s.find p transferId = some slot) :
    slot ∈ (s.entries p).map DirEntry.slot := by
  unfold find at hfind
  split at hfind
  · cases hfind
  · obtain ⟨e, hmem, -, rfl⟩ := Row.mem_of_find hfind
    apply List.mem_map_of_mem
    simpa [entries] using hmem

theorem Sound.leased_of_listed (h : s.Sound peerOf) (hslot : slot ∈ (s.entries p).map DirEntry.slot) :
    s.Leased slot ∧ peerOf (s.records slot) = p := by
  obtain ⟨e, he, rfl⟩ := List.mem_map.mp hslot
  exact h.listed p e (by simpa [entries] using he)

theorem Sound.unlisted (h : s.Sound peerOf) (hslot : slot ∈ (s.entries p).map DirEntry.slot)
    (hq : q ≠ p) : slot ∉ (s.entries q).map DirEntry.slot := by
  intro hslot'
  exact hq ((h.leased_of_listed hslot').2.symm.trans (h.leased_of_listed hslot).2)

theorem giveBack_frame (s : Side ρ) (slot : ℕ) (pool : Option Pool.SlotPool) :
    (s.giveBack slot pool).dir = s.dir ∧ (s.giveBack slot pool).records = s.records ∧
      (s.giveBack slot pool).maxPeers = s.maxPeers := by
  cases pool <;> exact ⟨rfl, rfl, rfl⟩

theorem close_records (s : Side ρ) (p slot : ℕ) (blank : ρ) :
    (s.close p slot blank).records = update s.records slot blank :=
  (giveBack_frame _ slot _).2.1

theorem close_maxPeers (s : Side ρ) (p slot : ℕ) (blank : ρ) :
    (s.close p slot blank).maxPeers = s.maxPeers :=
  (giveBack_frame _ slot _).2.2

theorem close_entries (s : Side ρ) (slot : ℕ) (blank : ρ) (hp : p < s.maxPeers) :
    (s.close p slot blank).entries p = (s.entries p).filter fun e => e.slot ≠ slot := by
  rw [entries, close, (giveBack_frame _ slot _).1, forget]
  simp only [if_pos hp, update_self]
  exact Row.entries_clear

theorem close_entries_of_ne (s : Side ρ) (slot : ℕ) (blank : ρ) (hq : q ≠ p) :
    (s.close p slot blank).entries q = s.entries q := by
  rw [entries, close, (giveBack_frame _ slot _).1, forget]
  dsimp only
  split
  · rw [update_of_ne hq]
    rfl
  · rfl

theorem foldl_close_entries (blank : ρ) (es : List DirEntry) (hp : p < s.maxPeers) :
    (es.foldl (fun s e => s.close p e.slot blank) s).entries p =
        (s.entries p).filter (fun e => e.slot ∉ es.map DirEntry.slot) ∧
      (∀ q, q ≠ p → (es.foldl (fun s e => s.close p e.slot blank) s).entries q = s.entries q) ∧
      ∀ j, j ∉ es.map DirEntry.slot →
        (es.foldl (fun s e => s.close p e.slot blank) s).records j = s.records j := by
  induction es generalizing s with
  | nil => simp
  | cons e es ih =>
    obtain ⟨hrow, hother, hrecords⟩ := ih (s := s.close p e.slot blank)
      (by rw [close_maxPeers]; exact hp)
    rw [List.foldl_cons]
    refine ⟨?_, ?_, ?_⟩
    · rw [hrow, close_entries s e.slot blank hp, List.filter_filter]
      apply List.filter_congr
      intro e' _
      rw [Bool.and_comm, ← Bool.decide_and, decide_eq_decide, List.map_cons, List.mem_cons, not_or]
    · intro q hq
      rw [hother q hq, close_entries_of_ne s e.slot blank hq]
    · intro j hj
      rw [List.map_cons, List.mem_cons, not_or] at hj
      rw [hrecords j hj.2, close_records, update_of_ne hj.1]

theorem foldl_close_record (p : ℕ) (blank : ρ) (es : List DirEntry) (s : Side ρ) (j : ℕ) :
    (es.foldl (fun s e => s.close p e.slot blank) s).records j = s.records j ∨
      (es.foldl (fun s e => s.close p e.slot blank) s).records j = blank := by
  induction es generalizing s with
  | nil => exact .inl rfl
  | cons e es ih =>
    rw [List.foldl_cons]
    rcases ih (s.close p e.slot blank) with hkept | hblank
    · rw [hkept, close_records, update_apply]
      split
      · exact .inr rfl
      · exact .inl rfl
    · exact .inr hblank

theorem sweep_record (s : Side ρ) (p : ℕ) (blank : ρ) (j : ℕ) :
    (s.sweep p blank).records j = s.records j ∨ (s.sweep p blank).records j = blank := by
  unfold sweep
  split
  · exact .inl rfl
  · exact foldl_close_record p blank _ s j

theorem Sound.sweep_entries (h : s.Sound peerOf) (p : ℕ) (blank : ρ) :
    (s.sweep p blank).entries p = [] ∧
      (∀ q, q ≠ p → (s.sweep p blank).entries q = s.entries q) ∧
      ∀ j, j ∉ (s.entries p).map DirEntry.slot → (s.sweep p blank).records j = s.records j := by
  unfold Side.sweep
  split
  · next hnone =>
    refine ⟨?_, fun _ _ => rfl, fun _ _ => rfl⟩
    rw [List.eq_nil_iff_forall_not_mem]
    intro e he
    obtain ⟨hleased, hpeer⟩ := h.leased_of_listed (List.mem_map_of_mem he)
    rcases hnone with hzero | hbeyond
    · exact h.unused hzero e.slot hleased
    · have hwithin := h.within e.slot hleased
      omega
  · next hsome =>
    rw [not_or, Nat.not_le] at hsome
    obtain ⟨hrow, hother, hrecords⟩ := foldl_close_entries (s := s) blank (s.entries p) hsome.2
    refine ⟨?_, hother, hrecords⟩
    refine Eq.trans hrow (List.filter_eq_nil_iff.mpr ?_)
    intro e he hout
    exact (decide_eq_true_eq.mp hout) (List.mem_map_of_mem he)

end Rows

variable {s : Side OutTransfer} {p slot : ℕ} {out : OutTransfer}

def owes (s : Side OutTransfer) (p : ℕ) : ℕ × ℕ :=
  Library.listed DirEntry.slot (fun i => (s.records i).owes) (s.entries p)

theorem owes_congr {s' : Side OutTransfer} (hentries : s'.entries p = s.entries p)
    (hrecords : ∀ i ∈ (s.entries p).map DirEntry.slot, s'.records i = s.records i) :
    s'.owes p = s.owes p := by
  rw [owes, hentries]
  apply listed_congr
  intro e he
  rw [hrecords e.slot (List.mem_map_of_mem he)]

theorem store_record_of_ne (s : Side OutTransfer) (out : OutTransfer) {i : ℕ} (hi : i ≠ slot) :
    (s.store slot out).records i = s.records i :=
  update_of_ne hi _ _

theorem Sound.owes_store (h : s.Sound OutTransfer.peerSlot)
    (hslot : slot ∈ (s.entries p).map DirEntry.slot) (out : OutTransfer) :
    (s.store slot out).owes p + (s.records slot).owes = s.owes p + out.owes ∧
      ∀ q, q ≠ p → (s.store slot out).owes q = s.owes q := by
  constructor
  · have hupdate := listed_update (f := fun i => (s.records i).owes) (h.single p) hslot out.owes
    refine Eq.trans ?_ hupdate
    congr 1
    apply listed_congr
    intro e _
    simp only [Side.store, update_apply]
    split <;> rfl
  · intro q hq
    refine owes_congr (s := s) rfl ?_
    intro i hi
    apply store_record_of_ne
    rintro rfl
    exact h.unlisted hslot hq hi

theorem lease_entries_of_ne {ρ : Type} (s : Side ρ) (pool : Pool.SlotPool)
    (slot i transferId : ℕ) (r : ρ) {q : ℕ} (hq : q ≠ p) :
    (s.lease pool slot p i transferId r).entries q = s.entries q := by
  simp only [entries, lease, update_of_ne hq]

theorem Sound.owes_lease (h : s.Sound OutTransfer.peerSlot) (hfree : ¬ s.Leased slot) {i : ℕ}
    (hrow : (s.dir p)[i]? = some none) (hzero : out.owes = 0) (pool : Pool.SlotPool)
    (transferId q : ℕ) : (s.lease pool slot p i transferId out).owes q = s.owes q := by
  have hold : ∀ e ∈ s.entries q, ((s.lease pool slot p i transferId out).records e.slot).owes =
      (s.records e.slot).owes := by
    intro e he
    have hne : e.slot ≠ slot := by
      rintro rfl
      exact hfree (h.leased_of_listed (List.mem_map_of_mem he)).1
    simp only [Side.lease, update_of_ne hne]
  by_cases hq : q = p
  · subst hq
    have hperm : List.Perm ((s.lease pool slot q i transferId out).entries q)
        (⟨transferId, slot⟩ :: s.entries q) := by
      simp only [entries, Side.lease, update_self]
      exact Row.entries_set hrow
    have hnew : ((s.lease pool slot q i transferId out).records slot).owes = 0 := by
      simp only [Side.lease, update_self]
      exact hzero
    rw [owes, listed_perm hperm, listed_cons, hnew, zero_add]
    apply listed_congr
    exact hold
  · rw [owes, s.lease_entries_of_ne pool slot i transferId out hq]
    apply listed_congr
    exact hold

theorem Sound.owes_close (h : s.Sound OutTransfer.peerSlot) (hleased : s.Leased slot)
    (hzero : (s.records slot).owes = 0) (q : ℕ) :
    (s.close (s.records slot).peerSlot slot .blank).owes q = s.owes q := by
  by_cases hq : q = (s.records slot).peerSlot
  · subst hq
    have hrow := close_entries s slot .blank (h.within slot hleased)
    have hfilter : Library.listed DirEntry.slot (fun i => (s.records i).owes)
        ((s.entries (s.records slot).peerSlot).filter fun e => e.slot ≠ slot) =
        s.owes (s.records slot).peerSlot := listed_filter hzero
    rw [owes, hrow, ← hfilter]
    apply listed_congr
    intro e he
    have hne : e.slot ≠ slot := by simpa using (List.mem_filter.mp he).2
    rw [close_records, update_of_ne hne]
  · apply owes_congr (close_entries_of_ne s slot .blank hq)
    intro i hi
    rw [close_records, update_of_ne]
    rintro rfl
    exact hq (h.leased_of_listed hi).2.symm

end Side

/-! ## The sending half of the table -/

namespace Table
variable {t t' : Table} {e : Finished} {peerSlot transferId slot : ℕ} {out : OutTransfer}

/-- The slots of the sends whose finished entry waits to be read. -/
def sentSlots (t : Table) : List ℕ := (t.finished.filter fun e => !e.incoming).map Finished.slot

/-- The queue names a send at most once, while it is over and holds its slot. -/
structure Sending (t : Table) : Prop where
  outbound : t.outbound.Sound OutTransfer.peerSlot
  queued : ∀ i ∈ t.sentSlots, t.outbound.Leased i ∧ (t.outbound.records i).over = true
  distinct : t.sentSlots.Nodup

theorem Sending.moves (h : t.Sending) (hsound : t'.outbound.Sound OutTransfer.peerSlot)
    (hslots : t'.sentSlots = t.sentSlots)
    (hkeep : ∀ i ∈ t.sentSlots, t'.outbound.Leased i ∧
      (t'.outbound.records i).over = (t.outbound.records i).over) : t'.Sending := by
  refine ⟨hsound, ?_, hslots ▸ h.distinct⟩
  rw [hslots]
  intro i hi
  exact ⟨(hkeep i hi).1, (hkeep i hi).2.trans (h.queued i hi).2⟩

theorem Sending.same (h : t.Sending) (hout : t'.outbound = t.outbound)
    (hslots : t'.sentSlots = t.sentSlots) : t'.Sending := by
  refine h.moves (hout ▸ h.outbound) hslots ?_
  intro i hi
  rw [hout]
  exact ⟨(h.queued i hi).1, rfl⟩

theorem Sending.beginSend (h : t.Sending) (peerSlot : ℕ) (peer : Address) (transferId : ℕ)
    (buffer : Option (ℕ → UInt8)) (length hint : ℕ) :
    (t.beginSend peerSlot peer transferId buffer length hint).2.Sending := by
  rcases t.beginSend_cases peerSlot peer transferId buffer length hint with
    ⟨hsame, -⟩ | ⟨source, -, hcount, -, -, hpeer, -, -, heq⟩
  · rw [hsame]
    exact h
  rw [heq]
  rcases h.outbound.claim_cases hcount peerSlot transferId
      (OutTransfer.start peerSlot peer transferId source length) hint rfl hpeer with
    ⟨hsame, -⟩ | ⟨slot, i, pool, hlease, hfree, -, -, hsound⟩
  · exact h.same hsame rfl
  rw [hlease]
  refine h.moves hsound rfl ?_
  intro j hj
  have hleased := (h.queued j hj).1
  have hne : j ≠ slot := by
    rintro rfl
    exact hfree hleased
  refine ⟨(Side.leased_lease hfree (h.outbound.counts slot)).mpr (.inr hleased), ?_⟩
  simp only [Side.lease, update_of_ne hne]

theorem Sending.store (h : t.Sending) (hpeer : out.peerSlot = (t.outbound.records slot).peerSlot)
    (hover : out.over = (t.outbound.records slot).over) :
    { t with outbound := t.outbound.store slot out }.Sending := by
  refine h.moves (h.outbound.store hpeer) rfl ?_
  intro i hi
  refine ⟨(h.queued i hi).1, ?_⟩
  by_cases hslot : i = slot
  · subst hslot
    simpa [Side.store] using hover
  · rw [Side.store_record_of_ne _ _ hslot]

theorem Sending.push (h : t.Sending) (hleased : t.outbound.Leased slot)
    (hpeer : out.peerSlot = (t.outbound.records slot).peerSlot)
    (hopen : (t.outbound.records slot).over = false) (hover : out.over = true) (outcome : Error) :
    ({ t with outbound := t.outbound.store slot out }.push slot false outcome).Sending := by
  have hnew : ∀ i ∈ t.sentSlots, i ≠ slot := by
    rintro i hi rfl
    rw [(h.queued i hi).2] at hopen
    cases hopen
  have hkeep : ∀ i ∈ t.sentSlots, (t.outbound.store slot out).Leased i ∧
      ((t.outbound.store slot out).records i).over = (t.outbound.records i).over := by
    intro i hi
    rw [Side.store_record_of_ne _ _ (hnew i hi)]
    exact ⟨(h.queued i hi).1, rfl⟩
  rw [Table.push]
  split
  · have hslots : Table.sentSlots
        { t with
          outbound := t.outbound.store slot out
          finished := t.finished ++ [⟨slot, false, outcome, t.outbound.serial slot⟩] } =
        t.sentSlots ++ [slot] := by
      simp [sentSlots]
    refine ⟨h.outbound.store hpeer, ?_, ?_⟩
    · intro i hi
      rcases List.mem_append.mp (hslots ▸ hi) with hold | hlast
      · exact ⟨(hkeep i hold).1, (hkeep i hold).2.trans (h.queued i hold).2⟩
      · rw [List.mem_singleton.mp hlast]
        exact ⟨hleased, by simpa [Side.store] using hover⟩
    · refine hslots ▸ List.nodup_append.mpr ⟨h.distinct, List.nodup_singleton _, ?_⟩
      intro i hi j hj
      rw [List.mem_singleton.mp hj]
      exact hnew i hi
  · exact h.moves (h.outbound.store hpeer) rfl hkeep

theorem Sending.rewrites (h : t.Sending) (hr : t.Rewrites t') : t'.Sending := by
  cases hr with
  | same => exact h
  | store hpeer hover => exact h.store hpeer hover
  | push hleased hpeer hopen hover outcome => exact h.push hleased hpeer hopen hover outcome

theorem Sending.sweepPeer (h : t.Sending)
    (hout : ∀ i ∈ t.sentSlots, (t.outbound.records i).peerSlot ≠ peerSlot) :
    (t.sweepPeer peerSlot).Sending := by
  obtain ⟨hsound, hnarrow, hkept⟩ := h.outbound.sweep peerSlot .blank
  refine h.moves hsound rfl ?_
  intro i hi
  have hleased := hkept i (h.queued i hi).1 (hout i hi)
  exact ⟨hleased, congrArg OutTransfer.over (hnarrow.kept i hleased).2.1⟩

/-- From `s` to `s'` transfers that owe nothing were closed. -/
structure Settled (s s' : Side OutTransfer) : Prop where
  tallied : ∀ i, (s'.records i).Tallied
  owes : ∀ p, s'.owes p = s.owes p
  empty : ∀ p, s.entries p = [] → s'.entries p = []

theorem Sending.settled_close (h : t.Sending) (htallied : ∀ i, (t.outbound.records i).Tallied)
    (hslot : slot ∈ t.sentSlots) :
    Settled t.outbound (t.outbound.close (t.outbound.records slot).peerSlot slot .blank) where
  tallied := by
    intro i
    rw [Side.close_records, update_apply]
    split
    · exact OutTransfer.tallied_start ..
    · exact htallied i
  owes := h.outbound.owes_close (h.queued slot hslot).1
    ((htallied slot).owes_of_over (h.queued slot hslot).2)
  empty := by
    intro p hp
    by_cases hpeer : p = (t.outbound.records slot).peerSlot
    · rw [hpeer] at hp ⊢
      rw [Side.close_entries _ _ _ (h.outbound.within slot (h.queued slot hslot).1), hp,
        List.filter_nil]
    · rw [Side.close_entries_of_ne _ _ _ hpeer, hp]

theorem Sending.read (h : t.Sending) (htallied : ∀ i, (t.outbound.records i).Tallied)
    {rest : List Finished} (hqueue : t.finished = e :: rest) :
    (t.readEntry e rest).2.Sending ∧ Settled t.outbound (t.readEntry e rest).2.outbound := by
  rw [Table.readEntry]
  split
  · next hd =>
    refine ⟨h.same rfl ?_, htallied, fun _ => rfl, fun _ hp => hp⟩
    simp [sentSlots, hqueue, hd]
  · next hd =>
    have hslots : t.sentSlots =
        e.slot :: (rest.filter fun e => !e.incoming).map Finished.slot := by
      simp [sentSlots, hqueue, hd]
    have hmem : e.slot ∈ t.sentSlots := hslots ▸ List.mem_cons_self
    have hleased := (h.queued e.slot hmem).1
    have hdistinct := h.distinct
    rw [hslots, List.nodup_cons] at hdistinct
    refine ⟨⟨h.outbound.close hleased .blank, ?_, hdistinct.2⟩, h.settled_close htallied hmem⟩
    -- the entry just read was the only one of its slot
    intro i hi
    have hother : i ≠ e.slot := by
      rintro rfl
      exact hdistinct.1 hi
    have hqueued := h.queued i (hslots ▸ List.mem_cons_of_mem _ hi)
    have hkept := (h.outbound.leased_close hleased (t.outbound.records e.slot).peerSlot
      .blank).mpr ⟨hqueued.1, hother⟩
    have hrecord := (h.outbound.narrows_close hleased _ .blank).kept i hkept
    exact ⟨hkept, (congrArg OutTransfer.over hrecord.2.1).trans hqueued.2⟩

theorem Sending.drain (max : ℕ) (h : t.Sending)
    (htallied : ∀ i, (t.outbound.records i).Tallied) :
    (Table.drainFinished max t).2.Sending ∧
      Settled t.outbound (Table.drainFinished max t).2.outbound := by
  induction max generalizing t with
  | zero => exact ⟨h, htallied, fun _ => rfl, fun _ hp => hp⟩
  | succ max ih =>
    rw [Table.drainFinished]
    split
    · exact ⟨h, htallied, fun _ => rfl, fun _ hp => hp⟩
    · next e rest hqueue =>
      obtain ⟨hread, hone⟩ := h.read htallied hqueue
      obtain ⟨hdrained, hmore⟩ := ih hread hone.tallied
      exact ⟨hdrained, hmore.tallied, fun p => (hmore.owes p).trans (hone.owes p),
        fun p hp => hmore.empty p (hone.empty p hp)⟩

end Table

end BcpFlux.Transfer
