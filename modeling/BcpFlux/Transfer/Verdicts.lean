import BcpFlux.Flow.Outbound
import BcpFlux.Transfer.Outgoing

/-! # What the sender of a transfer concludes from acknowledgements

An acknowledgement yields a round trip, which is in band or not reported at all, and a loss
charge over the sequences below the highest one the receiver holds.  The pass repairs holes
by a count rule of its own.  Its mark is one past the highest acknowledged sequence, and the
rule compares with `≤` where the charge compares with `<`.
-/

namespace BcpFlux.Transfer.OutTransfer
open Library

def missingSeqs (out : OutTransfer) : List ℕ :=
  let lo := max out.contiguousAcked out.lossBarrierSeq
  (List.range' lo (out.highestAcked - lossPacketThreshold - lo)).filter fun seq =>
    decide (out.stamp seq ≠ 0 ∧ out.isAcked seq = false)

theorem mem_missingSeqs {out : OutTransfer} {seq : ℕ} :
    seq ∈ out.missingSeqs ↔
      (out.contiguousAcked ≤ seq ∧ out.lossBarrierSeq ≤ seq ∧
        seq + lossPacketThreshold < out.highestAcked) ∧
      out.stamp seq ≠ 0 ∧ out.isAcked seq = false := by
  rw [missingSeqs, List.mem_filter, List.mem_range'_1, decide_eq_true_iff]
  refine and_congr ?_ Iff.rfl
  omega

theorem missing_eq (out : OutTransfer) :
    out.missing = u32 ((out.missingSeqs.map (wireSizeForSeq out.length)).sum) := by
  have hsum : ∀ seqs : List ℕ, (seqs.map fun seq =>
      if out.stamp seq ≠ 0 ∧ out.isAcked seq = false then wireSizeForSeq out.length seq else 0).sum =
      ((seqs.filter fun seq => decide (out.stamp seq ≠ 0 ∧ out.isAcked seq = false)).map
        (wireSizeForSeq out.length)).sum := by
    intro seqs
    induction seqs with
    | nil => rfl
    | cons seq seqs ih =>
      rw [List.map_cons, List.sum_cons, ih, List.filter_cons]
      by_cases hout : out.stamp seq ≠ 0 ∧ out.isAcked seq = false
      · rw [if_pos hout, if_pos (decide_eq_true hout), List.map_cons, List.sum_cons]
      · rw [if_neg hout, if_neg (by simpa using hout), Nat.zero_add]
  rw [missing, missingSeqs, hsum]

/-! ## Round trips -/

theorem sample_lt (out : OutTransfer) (now seq : ℕ) {old : ℕ} (hold : old < rttSampleMaxMicros) :
    out.sample now seq old < rttSampleMaxMicros := by
  rw [sample]
  split_ifs with h
  · exact h.2.2
  · exact hold

theorem foldl_resolve_rttSample_lt (now : ℕ) (seqs : List ℕ) {p : OutTransfer × AckReport}
    (hp : p.2.rttSample < rttSampleMaxMicros) :
    (seqs.foldl (resolve now) p).2.rttSample < rttSampleMaxMicros := by
  induction seqs generalizing p with
  | nil => exact hp
  | cons seq seqs ih =>
    apply ih
    rw [resolve]
    split_ifs
    · exact sample_lt p.1 now seq hp
    · exact hp

theorem onAck_rttSample_lt (out : OutTransfer) (recvNext : ℕ) (bitmap : List Bool) (now : ℕ) :
    (out.onAck recvNext bitmap now).2.1.rttSample < rttSampleMaxMicros := by
  rw [onAck]
  have hnone : (0 : ℕ) < rttSampleMaxMicros := by decide
  exact foldl_resolve_rttSample_lt now _ hnone

/-! ## The count rule -/

theorem oldestOverdue_self {out : OutTransfer} {now rto lossDelay seq : ℕ}
    (hlow : out.contiguousAcked ≤ seq) (hnext : seq < out.nextSeq) :
    out.oldestOverdue now rto lossDelay seq = some seq ↔
      out.overdue now rto lossDelay seq = true := by
  have hlo : max seq out.contiguousAcked = seq := max_eq_left hlow
  obtain ⟨rest, hrest⟩ : ∃ rest, out.nextSeq - seq = rest + 1 :=
    Nat.exists_eq_add_one.mpr (Nat.sub_pos_of_lt hnext)
  rw [oldestOverdue, hlo, hrest, List.range'_succ]
  cases hdue : out.overdue now rto lossDelay seq with
  | true => simp [hdue]
  | false =>
    rw [List.find?_cons_of_neg (by simp [hdue])]
    simp only [Bool.false_eq_true, iff_false]
    intro hfound
    have hmem := List.mem_of_find?_eq_some hfound
    rw [List.mem_range'_1] at hmem
    omega

/-- Younger than both delays, a sequence sent once is selected by the count or not at all. -/
theorem overdue_young {out : OutTransfer} {now rto lossDelay seq : ℕ}
    (hstamp : out.stamp seq ≠ 0) (hacked : out.isAcked seq = false)
    (hresent : out.isResent seq = false) (hloss : now - out.stamp seq ≤ lossDelay)
    (hrto : now - out.stamp seq ≤ rto) :
    out.overdue now rto lossDelay seq = true ↔
      u32 (seq + lossPacketThreshold) ≤ out.highestAcked := by
  have hlate : ¬ lossDelay < now - out.stamp seq := by omega
  have hdead : ¬ rto < now - out.stamp seq := by omega
  simp [overdue, hstamp, hacked, hresent, hlate, hdead]

/-- The count rule of the pass is the rule of the flows, and what it selects is charged,
exactly for a sequence that is not two below the highest acknowledged one and whose distance
to it is computed inside the word. -/
theorem countRule_exact (out : OutTransfer) (now rto lossDelay highest seq : ℕ)
    (hhighest : out.highestAcked = highest + 1) (hword : out.highestAcked < 2 ^ 32)
    (hlow : out.contiguousAcked ≤ seq) (hnext : seq < out.nextSeq) (hword' : out.nextSeq < 2 ^ 32)
    (hstamp : out.stamp seq ≠ 0) (hacked : out.isAcked seq = false)
    (hresent : out.isResent seq = false) (hloss : now - out.stamp seq ≤ lossDelay)
    (hrto : now - out.stamp seq ≤ rto) :
    ((out.oldestOverdue now rto lossDelay seq = some seq ↔
          lossPacketThreshold ≤ highest - seq) ∧
        (out.oldestOverdue now rto lossDelay seq = some seq →
          seq ∈ ({ out with lossBarrierSeq := 0 } : OutTransfer).missingSeqs)) ↔
      seq + lossPacketThreshold ≠ out.highestAcked ∧ seq + lossPacketThreshold < 2 ^ 32 := by
  rw [oldestOverdue_self hlow hnext, overdue_young hstamp hacked hresent hloss hrto,
    mem_missingSeqs]
  change (_ ∧ (_ → (out.contiguousAcked ≤ seq ∧ 0 ≤ seq ∧ _) ∧
    out.stamp seq ≠ 0 ∧ out.isAcked seq = false)) ↔ _
  have hcharged : ((out.contiguousAcked ≤ seq ∧ 0 ≤ seq ∧
      seq + lossPacketThreshold < out.highestAcked) ∧
      out.stamp seq ≠ 0 ∧ out.isAcked seq = false) ↔
      seq + lossPacketThreshold < out.highestAcked := by
    simp [hlow, hstamp, hacked]
  rw [hcharged, hhighest] at *
  have hthree : lossPacketThreshold = 3 := rfl
  rw [hthree, u32]
  omega

/-- Ten sequences out, the receiver holds the sixth: the first was overtaken by five, and
flow and transfer agree on it. -/
theorem countRule_exact_deep :
    let out : OutTransfer :=
      { start 0 ⟨[], 0, 0⟩ 0 (fun _ => 0) 20000 with
        nextSeq := 10, highestAcked := 6, inFlight := 9, sentAt := fun i => if i = 5 then 0 else 100
        ackedBits := fun i => decide (i = 5) }
    out.oldestOverdue 200 1000 1000 0 = some 0 ∧ 3 ≤ 5 - 0 ∧
      0 ∈ ({ out with lossBarrierSeq := 0 } : OutTransfer).missingSeqs := by
  intro out
  have h := (countRule_exact out 200 1000 1000 5 0 rfl (by decide) (by decide) (by decide)
    (by decide) (by decide) (by decide) (by decide) (by decide) (by decide)).mpr
    ⟨by decide, by decide⟩
  have hselected : out.oldestOverdue 200 1000 1000 0 = some 0 := h.1.mpr (by decide)
  exact ⟨hselected, by decide, h.2 hselected⟩

/-- Two sequences past it have landed, not three: the pass resends the sequence while the
flow rule and the transfer's own loss charge both still wait. -/
theorem countRule_fires_early :
    let out : OutTransfer :=
      { start 0 ⟨[], 0, 0⟩ 0 (fun _ => 0) 20000 with
        nextSeq := 3, highestAcked := 3, inFlight := 1, sentAt := fun i => if i = 0 then 100 else 0
        ackedBits := fun i => decide (i = 1 ∨ i = 2) }
    out.oldestOverdue 200 1000 1000 0 = some 0 ∧ ¬ lossPacketThreshold ≤ 2 - 0 ∧
      out.missingSeqs = [] := by
  decide +kernel

end BcpFlux.Transfer.OutTransfer
