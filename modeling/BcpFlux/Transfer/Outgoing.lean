import BcpFlux.Transfer.Incoming
import BcpFlux.Peer.Budget
import Mathlib.Data.List.TakeWhile

/-! # The sending end of a transfer

`OutTransfer` with its three rings, the acknowledgement and the refusal as
`transfer_table.cpp` applies them once the slot is found, and one transfer's turn in
`TransferPass`.
-/

namespace BcpFlux.Transfer
open Library Wire Peer

def transferAnnounceSize : ℕ := 10
def rttSampleMaxMicros : ℕ := 10000000
def packetsPerPass : ℕ := 64

/-- Transfer packets as the far side reads them, channel and header decoded. -/
inductive Packet where
  | announce (transferId length stride : ℕ)
  | data (transferId seq : ℕ) (payload : List UInt8)
  | ack (transferId recvNext : ℕ) (bitmap : List Bool)
  | reject (transferId : ℕ)
deriving DecidableEq, Repr

def transferWireSize (payload : ℕ) : ℕ :=
  wireSecureHeadSize + wirePeerTagSize + wireSecureChannelSize + transferWireHeaderSize +
    payload + wireTagSize

/-- Wire bytes of the data packet at `seq`. -/
def wireSizeForSeq (length seq : ℕ) : ℕ := transferWireSize (payloadAt length seq)

structure OutTransfer where
  peerSlot : ℕ
  peerAddr : Address
  transferId : ℕ
  source : ℕ → UInt8
  length : ℕ
  packetCount : ℕ
  nextSeq : ℕ
  announced : Bool
  announceAcked : Bool
  announceSentAt : ℕ
  refused : Bool
  inFlight : ℕ
  contiguousAcked : ℕ
  highestAcked : ℕ
  lossBarrierSeq : ℕ
  sentAt : ℕ → ℕ
  ackedBits : ℕ → Bool
  resentBits : ℕ → Bool

/-- What an acknowledgement gives back to the peer: the sequences it resolved, whose sizes
add up to `outFreedBytes`, the round trip and the bytes now known missing. -/
structure AckReport where
  freed : List ℕ
  rttSample : ℕ
  lostBytes : ℕ
deriving DecidableEq, Repr

def AckReport.none : AckReport := ⟨[], 0, 0⟩

namespace OutTransfer

def start (peerSlot : ℕ) (peerAddr : Address) (transferId : ℕ) (source : ℕ → UInt8) (length : ℕ) :
    OutTransfer where
  peerSlot := peerSlot
  peerAddr := peerAddr
  transferId := transferId
  source := source
  length := length
  packetCount := packetsFor length
  nextSeq := 0
  announced := false
  announceAcked := false
  announceSentAt := 0
  refused := false
  inFlight := 0
  contiguousAcked := 0
  highestAcked := 0
  lossBarrierSeq := 0
  sentAt := fun _ => 0
  ackedBits := fun _ => false
  resentBits := fun _ => false

def payload (out : OutTransfer) (seq : ℕ) : List UInt8 :=
  (List.range (payloadAt out.length seq)).map fun k => out.source (seq * transferStride + k)

def stamp (out : OutTransfer) (seq : ℕ) : ℕ := out.sentAt (slot transferWindow seq)

def isAcked (out : OutTransfer) (seq : ℕ) : Bool := out.ackedBits (slot transferWindow seq)

def isResent (out : OutTransfer) (seq : ℕ) : Bool := out.resentBits (slot transferWindow seq)

/-! ## Acknowledgements -/

/-- The resolved record: no stamp, no resend mark, and the acked bit set. -/
def settle (out : OutTransfer) (seq : ℕ) : OutTransfer :=
  { out with
    sentAt := put transferWindow out.sentAt seq 0
    resentBits := put transferWindow out.resentBits seq false
    inFlight := out.inFlight - 1
    ackedBits := put transferWindow out.ackedBits seq true }

def setAcked (out : OutTransfer) (seq : ℕ) : OutTransfer :=
  { out with ackedBits := put transferWindow out.ackedBits seq true }

/-- Karn's rule: a sequence sent twice gives no sample. -/
def sample (out : OutTransfer) (now seq old : ℕ) : ℕ :=
  if out.stamp seq < now ∧ out.isResent seq = false ∧
      now - out.stamp seq < rttSampleMaxMicros then now - out.stamp seq else old

/-- The `resolve` closure of `OnAck`. -/
def resolve (now : ℕ) (p : OutTransfer × AckReport) (seq : ℕ) : OutTransfer × AckReport :=
  if p.1.stamp seq ≠ 0 then
    (p.1.settle seq, { p.2 with
      freed := p.2.freed ++ [seq]
      rttSample := p.1.sample now seq p.2.rttSample })
  else (p.1.setAcked seq, p.2)

/-- The sequences the bitmap names: the loop skips clear bits and ends at the first set one
past the last packet. -/
def bitmapSeqs (packetCount recvNext : ℕ) (bitmap : List Bool) : List ℕ :=
  (((bitmap.take transferWindow).zipIdx.filter Prod.fst).map
    fun bit => u32 (recvNext + bit.2)).takeWhile fun seq => seq < packetCount

/-- Bytes outstanding below what the receiver is known to hold and past the last reaction. -/
def missing (out : OutTransfer) : ℕ :=
  let lo := max out.contiguousAcked out.lossBarrierSeq
  u32 (((List.range' lo (out.highestAcked - lossPacketThreshold - lo)).map fun seq =>
    if out.stamp seq ≠ 0 ∧ out.isAcked seq = false then wireSizeForSeq out.length seq else 0).sum)

def barrier (out : OutTransfer) : OutTransfer :=
  if out.missing ≠ 0 then { out with lossBarrierSeq := out.nextSeq } else out

/-- Everything an acknowledgement resolves: the cursor's sequences first, then the bitmap's. -/
def ackSeqs (out : OutTransfer) (recvNext : ℕ) (bitmap : List Bool) : List ℕ :=
  List.range' out.contiguousAcked (recvNext - out.contiguousAcked) ++
    bitmapSeqs out.packetCount recvNext bitmap

/-- Resolving reads and writes the rings only, so the two cursors are moved afterwards. -/
def applyAck (out : OutTransfer) (recvNext : ℕ) (bitmap : List Bool) (now : ℕ) :
    OutTransfer × AckReport :=
  let r := (out.ackSeqs recvNext bitmap).foldl (resolve now)
    ({ out with announceAcked := true }, .none)
  ({ r.1 with
      contiguousAcked := max out.contiguousAcked recvNext
      highestAcked := (bitmapSeqs out.packetCount recvNext bitmap).foldl
        (fun highest seq => max highest (seq + 1)) (max out.highestAcked recvNext) }, r.2)

/-- `OnAck` once the slot is found.  The flag says that a finished entry is queued. -/
def onAck (out : OutTransfer) (recvNext : ℕ) (bitmap : List Bool) (now : ℕ) :
    OutTransfer × AckReport × Bool :=
  let r := out.applyAck (min recvNext out.packetCount) bitmap now
  (r.1.barrier, { r.2 with lostBytes := r.1.missing },
    decide (r.1.packetCount ≤ r.1.contiguousAcked))

/-! ### What an acknowledgement changes -/

section Ack
variable (now : ℕ) (p : OutTransfer × AckReport)

/-- The fields no acknowledgement and no refusal touches. -/
def frame (out : OutTransfer) : ℕ × Address × ℕ × (ℕ → UInt8) × ℕ × ℕ × ℕ × Bool :=
  (out.peerSlot, out.peerAddr, out.transferId, out.source, out.length, out.packetCount,
    out.nextSeq, out.announced)

@[simp] theorem resolve_frame (seq : ℕ) : (resolve now p seq).1.frame = p.1.frame := by
  unfold resolve
  split <;> rfl

@[simp] theorem resolve_refused (seq : ℕ) : (resolve now p seq).1.refused = p.1.refused := by
  unfold resolve
  split <;> rfl

@[simp] theorem resolve_stamp (seq n : ℕ) : (resolve now p seq).1.stamp n =
    if slot transferWindow n = slot transferWindow seq then 0 else p.1.stamp n := by
  unfold resolve
  by_cases hcell : slot transferWindow n = slot transferWindow seq
  · split
    · simp [settle, stamp, hcell, put_self]
    · next hzero => simpa [setAcked, stamp, hcell] using hzero
  · split
    · simp [settle, stamp, hcell, put_of_ne]
    · simp [setAcked, stamp]

@[simp] theorem resolve_isAcked (seq n : ℕ) : (resolve now p seq).1.isAcked n =
    if slot transferWindow n = slot transferWindow seq then true else p.1.isAcked n := by
  unfold resolve
  by_cases hcell : slot transferWindow n = slot transferWindow seq
  · split <;> simp [settle, setAcked, isAcked, hcell, put_self]
  · split <;> simp [settle, setAcked, isAcked, hcell, put_of_ne]

theorem resolve_isResent {seq n : ℕ} (hcell : slot transferWindow n ≠ slot transferWindow seq) :
    (resolve now p seq).1.isResent n = p.1.isResent n := by
  unfold resolve
  split <;> simp [settle, setAcked, isResent, hcell, put_of_ne]

variable {p} {seqs : List ℕ}

theorem foldl_resolve_frame (seqs : List ℕ) :
    (seqs.foldl (resolve now) p).1.frame = p.1.frame := by
  induction seqs generalizing p with
  | nil => rfl
  | cons seq seqs ih => rw [List.foldl_cons, ih, resolve_frame]

theorem foldl_resolve_refused (seqs : List ℕ) :
    (seqs.foldl (resolve now) p).1.refused = p.1.refused := by
  induction seqs generalizing p with
  | nil => rfl
  | cons seq seqs ih => rw [List.foldl_cons, ih, resolve_refused]

theorem foldl_resolve_stamp (seqs : List ℕ) (n : ℕ) :
    (seqs.foldl (resolve now) p).1.stamp n =
      if slot transferWindow n ∈ seqs.map (slot transferWindow) then 0 else p.1.stamp n := by
  induction seqs generalizing p with
  | nil => simp
  | cons seq seqs ih =>
    rw [List.foldl_cons, ih, resolve_stamp, List.map_cons]
    by_cases hcell : slot transferWindow n = slot transferWindow seq
    · simp [hcell]
    · simp [hcell]

theorem foldl_resolve_isAcked (seqs : List ℕ) (n : ℕ) :
    (seqs.foldl (resolve now) p).1.isAcked n =
      if slot transferWindow n ∈ seqs.map (slot transferWindow) then true else p.1.isAcked n := by
  induction seqs generalizing p with
  | nil => simp
  | cons seq seqs ih =>
    rw [List.foldl_cons, ih, resolve_isAcked, List.map_cons]
    by_cases hcell : slot transferWindow n = slot transferWindow seq
    · simp [hcell]
    · simp [hcell]

theorem foldl_resolve_isResent {n : ℕ}
    (hn : slot transferWindow n ∉ seqs.map (slot transferWindow)) :
    (seqs.foldl (resolve now) p).1.isResent n = p.1.isResent n := by
  induction seqs generalizing p with
  | nil => rfl
  | cons seq seqs ih =>
    rw [List.map_cons, List.mem_cons, not_or] at hn
    rw [List.foldl_cons, ih hn.2, resolve_isResent now p hn.1]

theorem foldl_resolve_freed (hnodup : (seqs.map (slot transferWindow)).Nodup) :
    (seqs.foldl (resolve now) p).2.freed =
      p.2.freed ++ seqs.filter fun seq => decide (p.1.stamp seq ≠ 0) := by
  induction seqs generalizing p with
  | nil => simp
  | cons seq seqs ih =>
    obtain ⟨hseq, hnodup⟩ := List.nodup_cons.mp hnodup
    -- resolving `seq` leaves the stamps of the rest alone
    have hrest : seqs.filter (fun n => decide ((resolve now p seq).1.stamp n ≠ 0)) =
        seqs.filter fun n => decide (p.1.stamp n ≠ 0) := by
      apply List.filter_congr
      intro n hn
      rw [resolve_stamp, if_neg]
      intro hcell
      exact hseq (hcell ▸ List.mem_map_of_mem hn)
    rw [List.foldl_cons, ih hnodup, hrest]
    by_cases hstamp : p.1.stamp seq = 0
    · simp [resolve, hstamp]
    · simp [resolve, hstamp]

/-- A sample comes from a sequence of the list, with the stamp and the resend mark it had
before the list was worked through. -/
theorem foldl_resolve_rttSample (seqs : List ℕ) :
    (seqs.foldl (resolve now) p).2.rttSample = p.2.rttSample ∨
      ∃ seq ∈ seqs, p.1.stamp seq ≠ 0 ∧ p.1.isResent seq = false ∧
        (seqs.foldl (resolve now) p).2.rttSample = now - p.1.stamp seq := by
  induction seqs generalizing p with
  | nil => exact .inl rfl
  | cons seq seqs ih =>
    rw [List.foldl_cons]
    rcases ih (p := resolve now p seq) with hsame | ⟨n, hn, hstamp, hresent, hsample⟩
    · rw [hsame]
      unfold resolve
      split
      · next hne =>
        unfold sample
        split
        · next h => exact .inr ⟨seq, List.mem_cons_self, hne, h.2.1, rfl⟩
        · exact .inl rfl
      · exact .inl rfl
    · have hcell : slot transferWindow n ≠ slot transferWindow seq := by
        intro hcell
        rw [resolve_stamp, if_pos hcell] at hstamp
        exact hstamp rfl
      rw [resolve_stamp, if_neg hcell] at hstamp hsample
      rw [resolve_isResent now p hcell] at hresent
      exact .inr ⟨n, List.mem_cons_of_mem seq hn, hstamp, hresent, hsample⟩

theorem mem_bitmapSeqs {packetCount recvNext seq : ℕ} {bitmap : List Bool}
    (h : seq ∈ bitmapSeqs packetCount recvNext bitmap) :
    seq < packetCount ∧
      ∃ i < transferWindow, bitmap[i]? = some true ∧ seq = u32 (recvNext + i) := by
  have hcount := List.mem_takeWhile_imp h
  have hmem := (List.takeWhile_sublist _).subset h
  simp only [List.mem_map, List.mem_filter] at hmem
  obtain ⟨⟨bit, i⟩, ⟨hbit, rfl⟩, rfl⟩ := hmem
  rw [List.mk_mem_zipIdx_iff_getElem?, List.getElem?_take] at hbit
  split at hbit
  · next hi => exact ⟨by simpa using hcount, i, hi, hbit, rfl⟩
  · cases hbit

variable (out : OutTransfer) (recvNext : ℕ) (bitmap : List Bool)

theorem barrier_eq : out.barrier = { out with lossBarrierSeq := out.barrier.lossBarrierSeq } := by
  unfold barrier
  split <;> rfl

@[simp] theorem onAck_frame : (out.onAck recvNext bitmap now).1.frame = out.frame := by
  rw [onAck, barrier_eq]
  exact foldl_resolve_frame now (out.ackSeqs (min recvNext out.packetCount) bitmap)

@[simp] theorem onAck_refused : (out.onAck recvNext bitmap now).1.refused = out.refused := by
  rw [onAck, barrier_eq]
  exact foldl_resolve_refused now (out.ackSeqs (min recvNext out.packetCount) bitmap)

@[simp] theorem onAck_contiguousAcked : (out.onAck recvNext bitmap now).1.contiguousAcked =
    max out.contiguousAcked (min recvNext out.packetCount) := by
  rw [onAck, barrier_eq]
  rfl

theorem onAck_stamp (n : ℕ) : (out.onAck recvNext bitmap now).1.stamp n =
    if slot transferWindow n ∈
      (out.ackSeqs (min recvNext out.packetCount) bitmap).map (slot transferWindow) then 0
    else out.stamp n := by
  rw [onAck, barrier_eq]
  exact foldl_resolve_stamp now (out.ackSeqs (min recvNext out.packetCount) bitmap) n

theorem onAck_isAcked (n : ℕ) : (out.onAck recvNext bitmap now).1.isAcked n =
    if slot transferWindow n ∈
      (out.ackSeqs (min recvNext out.packetCount) bitmap).map (slot transferWindow) then true
    else out.isAcked n := by
  rw [onAck, barrier_eq]
  exact foldl_resolve_isAcked now (out.ackSeqs (min recvNext out.packetCount) bitmap) n

theorem onAck_isResent {n : ℕ} (hn : slot transferWindow n ∉
      (out.ackSeqs (min recvNext out.packetCount) bitmap).map (slot transferWindow)) :
    (out.onAck recvNext bitmap now).1.isResent n = out.isResent n := by
  rw [onAck, barrier_eq]
  exact foldl_resolve_isResent now hn

theorem onAck_freed (hnodup : ((out.ackSeqs (min recvNext out.packetCount) bitmap).map
      (slot transferWindow)).Nodup) :
    (out.onAck recvNext bitmap now).2.1.freed =
      (out.ackSeqs (min recvNext out.packetCount) bitmap).filter
        fun seq => decide (out.stamp seq ≠ 0) :=
  foldl_resolve_freed now hnodup

theorem onAck_rttSample (h : (out.onAck recvNext bitmap now).2.1.rttSample ≠ 0) :
    ∃ seq ∈ out.ackSeqs (min recvNext out.packetCount) bitmap,
      out.stamp seq ≠ 0 ∧ out.isResent seq = false ∧
        (out.onAck recvNext bitmap now).2.1.rttSample = now - out.stamp seq := by
  rcases foldl_resolve_rttSample now (p := ({ out with announceAcked := true }, .none))
    (out.ackSeqs (min recvNext out.packetCount) bitmap) with hzero | hsample
  · exact absurd hzero h
  · exact hsample

theorem onAck_finished : (out.onAck recvNext bitmap now).2.2 = true ↔
    out.packetCount ≤ max out.contiguousAcked (min recvNext out.packetCount) := by
  have hframe := foldl_resolve_frame now (p := ({ out with announceAcked := true }, .none))
    (out.ackSeqs (min recvNext out.packetCount) bitmap)
  have hcount : (out.applyAck (min recvNext out.packetCount) bitmap now).1.packetCount =
      out.packetCount := congrArg (fun f => f.2.2.2.2.2.1) hframe
  rw [onAck]
  rw [hcount, decide_eq_true_eq]
  rfl

end Ack

/-! ## Refusal -/

def drop (out : OutTransfer) (seq : ℕ) : OutTransfer :=
  { out with
    sentAt := put transferWindow out.sentAt seq 0
    inFlight := out.inFlight - 1 }

def refuse (p : OutTransfer × List ℕ) (seq : ℕ) : OutTransfer × List ℕ :=
  if p.1.stamp seq = 0 then p else (p.1.drop seq, p.2 ++ [seq])

/-- `OnRefused` once the slot is found: record, sequences whose bytes go back, and whether
a finished entry is queued. -/
def onRefused (out : OutTransfer) : OutTransfer × List ℕ × Bool :=
  if out.refused then (out, [], false)
  else
    let r := (List.range' out.contiguousAcked (out.nextSeq - out.contiguousAcked)).foldl refuse
      (out, [])
    ({ r.1 with refused := true }, r.2, true)

section Refusal
variable (p : OutTransfer × List ℕ)

@[simp] theorem refuse_stamp (seq n : ℕ) : (refuse p seq).1.stamp n =
    if slot transferWindow n = slot transferWindow seq then 0 else p.1.stamp n := by
  unfold refuse
  by_cases hcell : slot transferWindow n = slot transferWindow seq
  · split
    · next hzero => simpa [stamp, hcell] using hzero
    · simp [drop, stamp, hcell, put_self]
  · rw [if_neg hcell]
    split
    · rfl
    · simp [drop, stamp, hcell, put_of_ne]

variable {p} {seqs : List ℕ}

/-- A refusal changes stamps and the in-flight count, nothing else of a record. -/
theorem foldl_refuse_eq (seqs : List ℕ) : (seqs.foldl refuse p).1 =
    { p.1 with
      sentAt := (seqs.foldl refuse p).1.sentAt
      inFlight := (seqs.foldl refuse p).1.inFlight } := by
  induction seqs generalizing p with
  | nil => rfl
  | cons seq seqs ih =>
    rw [List.foldl_cons, ih]
    unfold refuse
    split <;> rfl

theorem foldl_refuse_stamp (seqs : List ℕ) (n : ℕ) :
    (seqs.foldl refuse p).1.stamp n =
      if slot transferWindow n ∈ seqs.map (slot transferWindow) then 0 else p.1.stamp n := by
  induction seqs generalizing p with
  | nil => simp
  | cons seq seqs ih =>
    rw [List.foldl_cons, ih, refuse_stamp, List.map_cons]
    by_cases hcell : slot transferWindow n = slot transferWindow seq
    · simp [hcell]
    · simp [hcell]

theorem foldl_refuse_freed (hnodup : (seqs.map (slot transferWindow)).Nodup) :
    (seqs.foldl refuse p).2 = p.2 ++ seqs.filter fun seq => decide (p.1.stamp seq ≠ 0) := by
  induction seqs generalizing p with
  | nil => simp
  | cons seq seqs ih =>
    obtain ⟨hseq, hnodup⟩ := List.nodup_cons.mp hnodup
    have hrest : seqs.filter (fun n => decide ((refuse p seq).1.stamp n ≠ 0)) =
        seqs.filter fun n => decide (p.1.stamp n ≠ 0) := by
      apply List.filter_congr
      intro n hn
      rw [refuse_stamp, if_neg]
      intro hcell
      exact hseq (hcell ▸ List.mem_map_of_mem hn)
    rw [List.foldl_cons, ih hnodup, hrest]
    by_cases hstamp : p.1.stamp seq = 0
    · simp [refuse, hstamp]
    · simp [refuse, hstamp]

/-- The sequences a refusal gives up. -/
def openSeqs (out : OutTransfer) : List ℕ :=
  List.range' out.contiguousAcked (out.nextSeq - out.contiguousAcked)

variable (out : OutTransfer)

theorem onRefused_eq : out.onRefused.1 =
    { out with
      sentAt := out.onRefused.1.sentAt
      inFlight := out.onRefused.1.inFlight
      refused := true } := by
  unfold onRefused
  split
  · next h => rw [← h]
  · dsimp only
    rw [foldl_refuse_eq]

theorem onRefused_stamp (hopen : out.refused = false) (n : ℕ) : out.onRefused.1.stamp n =
    if slot transferWindow n ∈ out.openSeqs.map (slot transferWindow) then 0 else out.stamp n := by
  unfold onRefused
  rw [if_neg (by simp [hopen])]
  exact foldl_refuse_stamp out.openSeqs n

theorem onRefused_freed (hopen : out.refused = false)
    (hnodup : (out.openSeqs.map (slot transferWindow)).Nodup) :
    out.onRefused.2.1 = out.openSeqs.filter fun seq => decide (out.stamp seq ≠ 0) := by
  unfold onRefused
  rw [if_neg (by simp [hopen])]
  exact foldl_refuse_freed hnodup

end Refusal

/-! ## Sending -/

def overdue (out : OutTransfer) (now rto lossDelay seq : ℕ) : Bool :=
  !out.isAcked seq && decide (out.stamp seq ≠ 0) &&
    (!out.isResent seq &&
        (decide (u32 (seq + lossPacketThreshold) ≤ out.highestAcked) ||
          decide (seq < out.highestAcked ∧ out.stamp seq < now ∧ lossDelay < now - out.stamp seq)) ||
      decide (out.stamp seq < now ∧ rto < now - out.stamp seq))

def oldestOverdue (out : OutTransfer) (now rto lossDelay fromSeq : ℕ) : Option ℕ :=
  let lo := max fromSeq out.contiguousAcked
  (List.range' lo (out.nextSeq - lo)).find? (out.overdue now rto lossDelay)

/-- `MarkSent`: a stamp that is still there makes this a resend. -/
def markSent (out : OutTransfer) (seq now : ℕ) : OutTransfer :=
  { out with
    inFlight := if out.stamp seq = 0 then out.inFlight + 1 else out.inFlight
    resentBits := if out.stamp seq = 0 then out.resentBits
      else put transferWindow out.resentBits seq true
    sentAt := put transferWindow out.sentAt seq now
    ackedBits := put transferWindow out.ackedBits seq false }

section MarkSent
variable (out : OutTransfer) (seq now n : ℕ)

@[simp] theorem markSent_stamp : (out.markSent seq now).stamp n =
    if slot transferWindow n = slot transferWindow seq then now else out.stamp n := by
  by_cases hcell : slot transferWindow n = slot transferWindow seq
  · simp [markSent, stamp, hcell, put_self]
  · simp [markSent, stamp, hcell, put_of_ne]

@[simp] theorem markSent_isAcked : (out.markSent seq now).isAcked n =
    if slot transferWindow n = slot transferWindow seq then false else out.isAcked n := by
  by_cases hcell : slot transferWindow n = slot transferWindow seq
  · simp [markSent, isAcked, hcell, put_self]
  · simp [markSent, isAcked, hcell, put_of_ne]

theorem markSent_isResent_self (hstamp : out.stamp seq ≠ 0) :
    (out.markSent seq now).isResent seq = true := by
  simp [markSent, isResent, hstamp, put_self]

theorem markSent_isResent_of_ne (hcell : slot transferWindow n ≠ slot transferWindow seq) :
    (out.markSent seq now).isResent n = out.isResent n := by
  unfold markSent isResent
  dsimp only
  split
  · rfl
  · rw [put_of_ne _ _ hcell]

end MarkSent

def countSent (out : OutTransfer) (seq : ℕ) : OutTransfer :=
  if seq = out.nextSeq then { out with nextSeq := out.nextSeq + 1 } else out

end OutTransfer

/-! ## The peer's gates, as the transfer pass copies them -/

def refillTransferPacing (peer : PeerBudget) (now : ℕ) : PeerBudget :=
  if peer.rtt.srttMicros = 0 then peer
  else if peer.pacingRefilledAt = 0 then { peer with pacingRefilledAt := now }
  else
    let gained := peer.congestionBudget * ccPacingGainPercent * (now - peer.pacingRefilledAt) %
      2 ^ 64 / (100 * peer.rtt.srttMicros)
    -- unlike the flow path's refill, a clock that stepped back changes nothing
    if now - peer.pacingRefilledAt = 0 ∨ gained = 0 then peer
    else { peer with
      pacingTokens := min (peer.pacingTokens + gained) ccPacingBurstBytes
      pacingRefilledAt := now }

def transferPacingAllows (peer : PeerBudget) (now wireSize : ℕ) : PeerBudget × Bool :=
  if peer.rtt.srttMicros = 0 then (peer, true)
  else
    let peer := refillTransferPacing peer now
    (peer, decide (wireSize ≤ peer.pacingTokens))

def transferBudgetAllows (peer : PeerBudget) (wireSize : ℕ) : Bool :=
  decide (peer.bytesInFlight + wireSize ≤ peer.congestionBudget) &&
    decide (peer.theirGrant = 0 ∨ peer.outstandingToPeer < peer.theirGrant)

/-- A first transmission takes budget, pacing and grant. -/
def transferSpendFirst (peer : PeerBudget) (wireSize : ℕ) : PeerBudget :=
  { peer with
    pacingTokens := peer.pacingTokens - wireSize
    bytesInFlight := peer.bytesInFlight + wireSize
    outstandingToPeer := peer.outstandingToPeer + 1 }

/-- A retransmission takes only the clock. -/
def transferSpendResend (peer : PeerBudget) (wireSize : ℕ) : PeerBudget :=
  { peer with pacingTokens := peer.pacingTokens - wireSize }

def transferResolve (peer : PeerBudget) (bytes packets : ℕ) : PeerBudget :=
  { peer with
    bytesInFlight := peer.bytesInFlight - bytes
    outstandingToPeer := peer.outstandingToPeer - packets }

/-! ## One transfer's turn in the pass -/

/-- The socket-wide intervals the deadlines start from. -/
structure Intervals where
  retryInterval : ℕ
  ackDelay : ℕ
deriving DecidableEq, Repr

/-- `queued` counts the packets of every transfer of the pass so far.  `stopped` is the
`break` of the send loop, `carryOn` what the walk over the peer's transfers is told. -/
structure Turn where
  peer : PeerBudget
  out : OutTransfer
  queued : ℕ
  packets : List Packet
  scanFrom : ℕ
  overdueClear : Bool
  stopped : Bool
  carryOn : Bool

namespace Turn

def fresh (peer : PeerBudget) (out : OutTransfer) (queued : ℕ) : Turn :=
  ⟨peer, out, queued, [], 0, false, false, true⟩

/-- The sequence to offer: the oldest overdue one, else the next new one. -/
def pick (t : Turn) (now rto lossDelay : ℕ) : Turn × Option ℕ :=
  match if t.overdueClear then none else t.out.oldestOverdue now rto lossDelay t.scanFrom with
  | some seq => ({ t with scanFrom := seq + 1 }, some seq)
  | none =>
    ({ t with overdueClear := true },
      if t.out.packetCount ≤ t.out.nextSeq ∨ t.out.contiguousAcked + transferWindow ≤ t.out.nextSeq
      then none else some t.out.nextSeq)

/-- The packet goes out: charged, queued and stamped. -/
def send (t : Turn) (now seq : ℕ) : Turn :=
  let wireSize := wireSizeForSeq t.out.length seq
  { t with
    peer := if seq = t.out.nextSeq then transferSpendFirst t.peer wireSize
      else transferSpendResend t.peer wireSize
    queued := t.queued + 1
    packets := t.packets ++ [.data t.out.transferId seq (t.out.payload seq)]
    out := (t.out.markSent seq now).countSent seq }

/-- The gates a picked sequence passes, in order. -/
def offer (t : Turn) (now seq : ℕ) : Turn :=
  let wireSize := wireSizeForSeq t.out.length seq
  let paced := transferPacingAllows t.peer now wireSize
  let t := { t with peer := paced.1 }
  if paced.2 = false then { t with stopped := true }
  else if seq = t.out.nextSeq ∧ transferBudgetAllows t.peer wireSize = false then
    { t with stopped := true }
  else if packetsPerPass ≤ t.queued then { t with stopped := true, carryOn := false }
  else t.send now seq

/-- One round of the send loop. -/
def attempt (t : Turn) (now rto lossDelay : ℕ) : Turn :=
  let r := t.pick now rto lossDelay
  match r.2 with
  | none => { r.1 with stopped := true }
  | some seq => r.1.offer now seq

/-- The send loop, with the rounds it has left. -/
def rounds (now rto lossDelay : ℕ) : ℕ → Turn → Turn
  | 0, t => t
  | left + 1, t => if t.stopped then t else rounds now rto lossDelay left (t.attempt now rto lossDelay)

/-- The announcement goes out: charged like a first transmission. -/
def announce (t : Turn) (now : ℕ) : Turn :=
  { t with
    peer := transferSpendFirst t.peer (transferWireSize transferAnnounceSize)
    queued := t.queued + 1
    packets := t.packets ++ [.announce t.out.transferId t.out.length transferStride]
    out := { t.out with announced := true, announceSentAt := now } }

/-- The pacing clock is asked only when the budget allows. -/
def offerAnnounce (t : Turn) (now : ℕ) : Turn :=
  let wireSize := transferWireSize transferAnnounceSize
  if transferBudgetAllows t.peer wireSize = false then t
  else
    let paced := transferPacingAllows t.peer now wireSize
    let t := { t with peer := paced.1 }
    if paced.2 = false then t
    else if packetsPerPass ≤ t.queued then { t with carryOn := false }
    else t.announce now

/-- The body of the walk of `TransferPass` for one transfer. -/
def run (t : Turn) (times : Intervals) (now : ℕ) : Turn :=
  let rto := t.peer.rtt.baseTimeout times.retryInterval times.ackDelay
  if t.out.refused then t
  else if t.out.announced = false then t.offerAnnounce now
  else if t.out.announceAcked = false then
    if t.out.announceSentAt < now ∧ rto < now - t.out.announceSentAt then
      { t with out := { t.out with announced := false } }
    else t
  else rounds now rto (t.peer.rtt.lossDelayMicros times.retryInterval) packetsPerPass t

/-! ## What a turn can do -/

def charged (t : Turn) : ℕ × ℕ := (t.peer.bytesInFlight, t.peer.outstandingToPeer)

/-- One step of a turn, as far as the record, the packets and the charges go. -/
inductive Sends (now : ℕ) (t t' : Turn) : Prop
  | nothing (hout : t'.out = t.out) (hpackets : t'.packets = t.packets)
      (hcharged : t'.charged = t.charged)
  | announced (hout : t'.out = { t.out with announced := true, announceSentAt := now })
      (hpackets : t'.packets =
        t.packets ++ [.announce t.out.transferId t.out.length transferStride])
      (hcharged : t'.charged =
        (t.charged.1 + transferWireSize transferAnnounceSize, t.charged.2 + 1))
  | unanswered (hout : t'.out = { t.out with announced := false })
      (hpackets : t'.packets = t.packets) (hcharged : t'.charged = t.charged)
  | resent (seq : ℕ) (hle : t.out.contiguousAcked ≤ seq) (hlt : seq < t.out.nextSeq)
      (hstamp : t.out.stamp seq ≠ 0) (hout : t'.out = t.out.markSent seq now)
      (hpackets : t'.packets = t.packets ++ [.data t.out.transferId seq (t.out.payload seq)])
      (hcharged : t'.charged = t.charged)
  | sent (hcount : t.out.nextSeq < t.out.packetCount)
      (hwindow : t.out.nextSeq < t.out.contiguousAcked + transferWindow)
      (hout : t'.out =
        { t.out.markSent t.out.nextSeq now with nextSeq := t.out.nextSeq + 1 })
      (hpackets : t'.packets = t.packets ++
        [.data t.out.transferId t.out.nextSeq (t.out.payload t.out.nextSeq)])
      (hcharged : t'.charged =
        (t.charged.1 + wireSizeForSeq t.out.length t.out.nextSeq, t.charged.2 + 1))

theorem refill_charged (peer : PeerBudget) (now : ℕ) :
    (refillTransferPacing peer now).bytesInFlight = peer.bytesInFlight ∧
      (refillTransferPacing peer now).outstandingToPeer = peer.outstandingToPeer := by
  unfold refillTransferPacing
  dsimp only
  split_ifs <;> exact ⟨rfl, rfl⟩

theorem pacing_charged (peer : PeerBudget) (now wireSize : ℕ) :
    (transferPacingAllows peer now wireSize).1.bytesInFlight = peer.bytesInFlight ∧
      (transferPacingAllows peer now wireSize).1.outstandingToPeer = peer.outstandingToPeer := by
  unfold transferPacingAllows
  split_ifs
  · exact ⟨rfl, rfl⟩
  · exact refill_charged peer now

theorem oldestOverdue_some {out : OutTransfer} {now rto lossDelay fromSeq seq : ℕ}
    (h : out.oldestOverdue now rto lossDelay fromSeq = some seq) :
    out.contiguousAcked ≤ seq ∧ seq < out.nextSeq ∧ out.stamp seq ≠ 0 := by
  have hmem := List.mem_of_find?_eq_some h
  have hdue := List.find?_some h
  rw [List.mem_range'_1] at hmem
  simp only [OutTransfer.overdue, Bool.and_eq_true, decide_eq_true_eq] at hdue
  exact ⟨by omega, by omega, hdue.1.2⟩

/-- What `pick` may return, and that it touches nothing but the scan. -/
theorem pick_spec (t : Turn) (now rto lossDelay : ℕ) :
    (t.pick now rto lossDelay).1.out = t.out ∧ (t.pick now rto lossDelay).1.packets = t.packets ∧
      (t.pick now rto lossDelay).1.peer = t.peer ∧
      ∀ seq, (t.pick now rto lossDelay).2 = some seq →
        (t.out.contiguousAcked ≤ seq ∧ seq < t.out.nextSeq ∧ t.out.stamp seq ≠ 0) ∨
        (seq = t.out.nextSeq ∧ t.out.nextSeq < t.out.packetCount ∧
          t.out.nextSeq < t.out.contiguousAcked + transferWindow) := by
  unfold pick
  split
  · next seq hfind =>
    refine ⟨rfl, rfl, rfl, ?_⟩
    rintro _ ⟨⟩
    split at hfind
    · cases hfind
    · exact .inl (oldestOverdue_some hfind)
  · refine ⟨rfl, rfl, rfl, ?_⟩
    intro seq hseq
    split at hseq
    · cases hseq
    · next hroom =>
      cases hseq
      exact .inr ⟨rfl, by omega, by omega⟩

theorem offer_sends (t : Turn) (now seq : ℕ)
    (hseq : (t.out.contiguousAcked ≤ seq ∧ seq < t.out.nextSeq ∧ t.out.stamp seq ≠ 0) ∨
      (seq = t.out.nextSeq ∧ t.out.nextSeq < t.out.packetCount ∧
        t.out.nextSeq < t.out.contiguousAcked + transferWindow)) :
    Sends now t (t.offer now seq) := by
  have hpaced := pacing_charged t.peer now (wireSizeForSeq t.out.length seq)
  have hcharged : ((transferPacingAllows t.peer now (wireSizeForSeq t.out.length seq)).1.bytesInFlight,
      (transferPacingAllows t.peer now (wireSizeForSeq t.out.length seq)).1.outstandingToPeer) =
      t.charged := by rw [hpaced.1, hpaced.2, charged]
  unfold offer
  dsimp only
  split
  · exact .nothing rfl rfl hcharged
  split
  · exact .nothing rfl rfl hcharged
  split
  · exact .nothing rfl rfl hcharged
  rcases hseq with ⟨hle, hlt, hstamp⟩ | ⟨rfl, hcount, hwindow⟩
  · refine .resent seq hle hlt hstamp ?_ rfl ?_
    · exact if_neg hlt.ne
    · rw [charged, send, if_neg hlt.ne]
      exact hcharged
  · refine .sent hcount hwindow ?_ rfl ?_
    · exact if_pos rfl
    · rw [← hcharged, charged, send, if_pos rfl]
      rfl

theorem attempt_sends (t : Turn) (now rto lossDelay : ℕ) :
    Sends now t (t.attempt now rto lossDelay) := by
  obtain ⟨hout, hpackets, hpeer, hpick⟩ := t.pick_spec now rto lossDelay
  unfold attempt
  dsimp only
  split
  · exact .nothing hout hpackets (by rw [charged, charged, hpeer])
  · next seq hseq =>
    have hcharged : (t.pick now rto lossDelay).1.charged = t.charged := by
      rw [charged, charged, hpeer]
    have hsends := offer_sends (t.pick now rto lossDelay).1 now seq (hout ▸ hpick seq hseq)
    cases hsends with
    | nothing ho hp hc => exact .nothing (ho.trans hout) (hp.trans hpackets) (hc.trans hcharged)
    | announced ho hp hc =>
      exact .announced (hout ▸ ho) (by rw [hp, hpackets, hout]) (by rw [hc, hcharged])
    | unanswered ho hp hc =>
      exact .unanswered (hout ▸ ho) (hp.trans hpackets) (hc.trans hcharged)
    | resent n hle hlt hstamp ho hp hc =>
      rw [hout] at hle hlt hstamp ho hp
      exact .resent n hle hlt hstamp ho (by rw [hp, hpackets]) (hc.trans hcharged)
    | sent hcount hwindow ho hp hc =>
      rw [hout] at hcount hwindow ho hp hc
      exact .sent hcount hwindow ho (by rw [hp, hpackets]) (by rw [hc, hcharged])

theorem offerAnnounce_sends (t : Turn) (now : ℕ) : Sends now t (t.offerAnnounce now) := by
  have hpaced := pacing_charged t.peer now (transferWireSize transferAnnounceSize)
  unfold offerAnnounce
  dsimp only
  split
  · exact .nothing rfl rfl rfl
  split
  · exact .nothing rfl rfl (Prod.ext hpaced.1 hpaced.2)
  split
  · exact .nothing rfl rfl (Prod.ext hpaced.1 hpaced.2)
  · exact .announced rfl rfl (Prod.ext (congrArg (· + _) hpaced.1) (congrArg (· + 1) hpaced.2))

theorem rounds_induction (I : Turn → Prop) (now rto lossDelay : ℕ)
    (hstep : ∀ t t', Sends now t t' → I t → I t') (left : ℕ) (t : Turn) (h : I t) :
    I (rounds now rto lossDelay left t) := by
  induction left generalizing t with
  | zero => exact h
  | succ left ih =>
    rw [rounds]
    split
    · exact h
    · exact ih _ (hstep _ _ (attempt_sends t now rto lossDelay) h)

/-- Invariant rule: what every step of a turn preserves, the whole turn preserves. -/
theorem run_induction (I : Turn → Prop) (now : ℕ)
    (hstep : ∀ t t', Sends now t t' → I t → I t') (t : Turn) (times : Intervals) (h : I t) :
    I (t.run times now) := by
  unfold run
  dsimp only
  split
  · exact h
  split
  · exact hstep _ _ (offerAnnounce_sends t now) h
  split
  · split
    · exact hstep t _ (.unanswered rfl rfl rfl) h
    · exact h
  · exact rounds_induction I now _ _ hstep packetsPerPass t h

end Turn
end BcpFlux.Transfer
