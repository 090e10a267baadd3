import BcpFlux.Transfer.Incoming

/-! # A receiver against any sender

One announced transfer with an attached buffer, and any list of `OnData` calls: the
sequence, the payload and its length are the peer's to choose.
-/

namespace BcpFlux.Transfer
open Library

/-- Lengths whose packet count fits the 32 bits it is kept in. -/
def Fits (length : ℕ) : Prop := length ≤ (2 ^ 32 - 1) * transferStride

instance (length : ℕ) : Decidable (Fits length) :=
  inferInstanceAs (Decidable (length ≤ (2 ^ 32 - 1) * transferStride))

theorem Fits.packetsFor_eq {length : ℕ} (h : Fits length) :
    packetsFor length = (length + transferStride - 1) / transferStride := by
  have hstride := transferStride_eq
  unfold Fits at h
  have hword : (length + transferStride - 1) % 2 ^ 64 = length + transferStride - 1 :=
    Nat.mod_eq_of_lt (by omega)
  rw [packetsFor, hword]
  apply Nat.mod_eq_of_lt
  rw [Nat.div_lt_iff_lt_mul (by decide)]
  omega

theorem Fits.length_le {length : ℕ} (h : Fits length) :
    length ≤ packetsFor length * transferStride := by
  rw [h.packetsFor_eq, transferStride_eq]
  omega

structure DataCall where
  seq : ℕ
  payload : List UInt8
deriving DecidableEq, Repr

namespace InTransfer

def receive (t : InTransfer) (call : DataCall) : InTransfer := (t.onData call.seq call.payload).2.1

def allowed (peerSlot : ℕ) (peerAddr : Address) (transferId length : ℕ) : InTransfer :=
  (announce peerSlot peerAddr transferId length).allow.2

/-- Every byte written lies inside the announced length. -/
def InBounds (t : InTransfer) : Prop := ∀ i, t.length ≤ i → t.buffer i = none

/-- What is reported as received is in the buffer; that a completion covers the whole length
needs a packet count that fits. -/
structure Reported (t : InTransfer) : Prop where
  progress_eq : t.progress = min (t.recvNext * transferStride) t.length
  written : ∀ i < min (t.recvNext * transferStride) t.length, (t.buffer i).isSome
  whole : Fits t.length → t.complete = true → ∀ i < t.length, (t.buffer i).isSome

/-- The sequence is at most a window ahead of the cursor, or past the last packet, or the
payload has not the length of its place. -/
def InWindow (t : InTransfer) (call : DataCall) : Prop :=
  call.seq < t.recvNext + transferWindow ∨ t.packetCount ≤ call.seq ∨
    call.payload.length ≠ payloadAt t.length call.seq

instance (t : InTransfer) (call : DataCall) : Decidable (t.InWindow call) :=
  inferInstanceAs (Decidable (_ ∨ _))

/-! ## Bounds -/

variable {t : InTransfer} {call : DataCall}

/-- No check that a write depends on is the sender's to pass. -/
theorem InBounds.receive (h : t.InBounds) (call : DataCall) : (t.receive call).InBounds := by
  intro i hi
  rw [InTransfer.receive, onData_length] at hi
  rcases onData_cases t call.seq call.payload with
    ⟨heq, -⟩ | ⟨dest, hdest, -, -, -, hlen, -, -, heq⟩
  · rw [InTransfer.receive, heq]
    exact h i hi
  · have hout : ¬ (call.seq * transferStride ≤ i ∧
        i < call.seq * transferStride + call.payload.length) := by
      rw [hlen, payloadAt]
      split <;> omega
    have hold : dest i = none := by simpa [buffer, hdest] using h i hi
    rw [InTransfer.receive, heq, buffer, place_destination, Option.getD_some, Buffer.write,
      if_neg hout, hold]

/-! ## Counts -/

def anyByte (_ : ℕ) (_ : UInt8) : Prop := True

theorem Counted.reported (h : Counted anyByte t)
    (hcount : t.packetCount = packetsFor t.length) : t.Reported := by
  have hwritten : ∀ i < min (t.recvNext * transferStride) t.length, (t.buffer i).isSome := by
    intro i hi
    obtain ⟨hbelow, hin⟩ := lt_min_iff.mp hi
    obtain ⟨b, hb, -⟩ := h.written hbelow hin
    simp [hb]
  refine ⟨?_, hwritten, ?_⟩
  · unfold progress
    split <;> omega
  · intro hfits hdone i hi
    apply hwritten
    have := hfits.length_le
    rw [h.complete_iff hdone, hcount]
    omega

/-- Whatever the peer sends, no write leaves the announced length.  And as long as no
packet of the right length is a whole window or more ahead of the cursor, the cursor, the
progress and the completion report only bytes that are in the buffer. -/
theorem receiver_robust (peerSlot : ℕ) (peerAddr : Address) (transferId length : ℕ) :
    (∀ calls, (run receive (allowed peerSlot peerAddr transferId length) calls).InBounds) ∧
      ∀ calls, Along receive InWindow (allowed peerSlot peerAddr transferId length) calls →
        (run receive (allowed peerSlot peerAddr transferId length) calls).Reported := by
  constructor
  · intro calls
    refine run_invariant receive InBounds (fun _ _ => True) (fun t call _ h => h.receive call) ?_
      (along_true receive _ calls)
    intro i _
    rfl
  · intro calls hcalls
    have hinv : ∀ t call, t.InWindow call →
        (Counted anyByte t ∧ t.length = length ∧ t.packetCount = packetsFor length) →
        Counted anyByte (t.receive call) ∧ (t.receive call).length = length ∧
          (t.receive call).packetCount = packetsFor length := by
      rintro t call hwindow ⟨h, hlen, hcount⟩
      rw [receive, onData_length, onData_packetCount]
      exact ⟨h.onData hwindow (fun _ _ _ => trivial), hlen, hcount⟩
    obtain ⟨h, hlen, hcount⟩ := run_invariant receive _ InWindow hinv
      ⟨(counted_announce peerSlot peerAddr transferId length).allow, rfl, rfl⟩ hcalls
    apply h.reported
    rwa [hlen]

/-- The second packet before the first, and one of a wrong length a window ahead of both. -/
def disordered : List DataCall :=
  [⟨1, List.replicate 1163 7⟩, ⟨1024, [7, 7]⟩, ⟨0, List.replicate 1163 9⟩]

theorem receiver_robust_disordered :
    let t := run receive (allowed 0 ⟨[], 0, 0⟩ 5 (1024 * 1163 + 1)) disordered
    (t.recvNext = 2 ∧ t.progress = 2326 ∧ t.buffer 1163 = some 7) ∧ t.Reported :=
  ⟨by decide +kernel, (receiver_robust 0 ⟨[], 0, 0⟩ 5 (1024 * 1163 + 1)).2 disordered (by decide +kernel)⟩

/-- A packet exactly one window ahead of the cursor sets the bit of the cursor itself: the
cursor moves, a whole stride is reported as received, and none of its bytes is written. -/
theorem cursor_counts_unwritten :
    let t := run receive (allowed 0 ⟨[], 0, 0⟩ 5 (1024 * 1163 + 1)) [⟨1024, [7]⟩]
    t.recvNext = 1 ∧ t.progress = 1163 ∧ t.buffer 0 = none := by
  decide +kernel

end InTransfer

end BcpFlux.Transfer
