import BcpFlux.Transfer.Table

/-! # How a run of bytes is cut

The division is made in four places and three widths: the count in 32 bits, the payload and
the wire size of the sending pass in 16, the wire size that is refunded in 32.  Where the count
fits its word they all describe one partition.
-/

namespace BcpFlux.Transfer
open Library Wire

/-- What the sending pass puts into the packet at `seq`: the difference is taken in 64 bits and
the payload kept in 16. -/
def sentPayload (length seq : ℕ) : ℕ :=
  let remaining := (length + 2 ^ 64 - seq * transferStride) % 2 ^ 64
  (if remaining < transferStride then remaining else transferStride) % 2 ^ 16

/-- `TransferWireSize` of that payload, which is what a first transmission is charged. -/
def chargedWireSize (length seq : ℕ) : ℕ := transferWireSize (sentPayload length seq) % 2 ^ 16

/-- `WireSizeForSeq`, in the 32 bits it is returned in. -/
def refundedWireSize (length seq : ℕ) : ℕ := wireSizeForSeq length seq % 2 ^ 32

/-- The first `count` packets cut a run into strides, the last one short or whole. -/
structure Segmented (length count : ℕ) : Prop where
  covered : ∀ i < length, ∃ seq < count,
    seq * transferStride ≤ i ∧ i < seq * transferStride + payloadAt length seq
  whole : ∀ seq, seq + 1 < count → payloadAt length seq = transferStride
  last : ∀ seq, seq + 1 = count → 1 ≤ payloadAt length seq ∧ payloadAt length seq ≤ transferStride ∧
    seq * transferStride + payloadAt length seq = length

section Fit
variable {length seq : ℕ}

theorem Fits.bounds (h : Fits length) (hpos : length ≠ 0) :
    packetsFor length ≠ 0 ∧ (packetsFor length - 1) * 1163 < length ∧
      length ≤ packetsFor length * 1163 := by
  rw [h.packetsFor_eq, transferStride_eq]
  omega

theorem Fits.segmented (h : Fits length) (hpos : length ≠ 0) :
    Segmented length (packetsFor length) := by
  obtain ⟨hcount, hlow, hhigh⟩ := h.bounds hpos
  refine ⟨fun i hi => ⟨i / transferStride, ?_⟩, fun seq hseq => ?_, fun seq hseq => ?_⟩
  all_goals
    unfold payloadAt
    rw [transferStride_eq]
    split_ifs <;> omega

theorem Segmented.fits (h : Segmented length (packetsFor length)) (hpos : length ≠ 0) :
    Fits length := by
  obtain ⟨seq, hseq, -, hlast⟩ := h.covered (length - 1) (by omega)
  have hword : packetsFor length < 2 ^ 32 := Nat.mod_lt _ (by decide)
  have hpayload : payloadAt length seq ≤ 1163 := InTransfer.payloadAt_le length seq
  have hle : (seq + 1) * 1163 ≤ (2 ^ 32 - 1) * 1163 := Nat.mul_le_mul_right _ (by omega)
  rw [transferStride_eq] at hlast
  change length ≤ (2 ^ 32 - 1) * 1163
  omega

/-- Inside the run nothing wraps: sender, receiver and refund compute one size. -/
theorem Fits.words (h : Fits length) (hpos : length ≠ 0) (hseq : seq < packetsFor length) :
    seq * transferStride < length ∧ sentPayload length seq = payloadAt length seq ∧
      chargedWireSize length seq = refundedWireSize length seq := by
  obtain ⟨-, hlow, -⟩ := h.bounds hpos
  have hle : length ≤ (2 ^ 32 - 1) * 1163 := h
  have hoffset : seq * 1163 < length :=
    lt_of_le_of_lt (Nat.mul_le_mul_right _ (Nat.le_sub_one_of_lt hseq)) hlow
  have hpayload : payloadAt length seq ≤ 1163 := InTransfer.payloadAt_le length seq
  have hremaining : (length + 2 ^ 64 - seq * transferStride) % 2 ^ 64 =
      length - seq * transferStride := by
    rw [transferStride_eq]
    omega
  have hsent : sentPayload length seq = payloadAt length seq := by
    unfold sentPayload
    rw [hremaining]
    exact Nat.mod_eq_of_lt (lt_of_le_of_lt hpayload (by decide))
  refine ⟨hoffset, hsent, ?_⟩
  unfold chargedWireSize refundedWireSize wireSizeForSeq
  simp only [transferWireSize, wireSecureHeadSize, wirePeerTagSize, wireSecureChannelSize,
    transferWireHeaderSize, wireTagSize]
  omega

end Fit

/-- What `OnData` makes of the packet at `seq` once the buffer is attached: it is refused
exactly when its payload is not what the sending pass puts there. -/
theorem InTransfer.onData_malformed_iff {t : InTransfer} {seq : ℕ} (payload : List UInt8)
    (hdest : t.destination.isSome = true) (hopen : t.complete = false)
    (hcount : seq < t.packetCount) (hoffset : seq * transferStride < t.length) :
    (t.onData seq payload).1 = .malformed ↔ payload.length ≠ payloadAt t.length seq := by
  obtain ⟨dest, hdest⟩ := Option.isSome_iff_exists.mp hdest
  unfold onData
  simp only [arrived, hdest, hopen, Nat.not_le.mpr hcount, Nat.not_le.mpr hoffset]
  split_ifs <;> simp_all

/-- Of the lengths that `BeginSend` or `OnAnnounce` accepts, under any limit, those whose count
fits are exactly those for which both records count the same packets, these cut the run into
strides, the payload the sender puts into each is the one the receiver expects at its offset,
and what a first transmission is charged is what is refunded. -/
theorem segmentation_exact (t : Table) (peerSlot : ℕ) (peer : Address) (transferId : ℕ)
    (source : ℕ → UInt8) (length stride hint : ℕ)
    (haccepted : (t.beginSend peerSlot peer transferId (some source) length hint).1 = .ok ∨
      (t.onAnnounce peerSlot peer transferId length stride hint).1 = .ok) :
    let out := OutTransfer.start peerSlot peer transferId source length
    let inn := InTransfer.announce peerSlot peer transferId length
    Fits length ↔ out.packetCount = inn.packetCount ∧ Segmented length out.packetCount ∧
      ∀ seq < out.packetCount,
        (out.payload seq).length = sentPayload length seq ∧
        sentPayload length seq = payloadAt length seq ∧
        (∀ payload dest, ({ inn with destination := some dest }.onData seq payload).1 = .malformed ↔
          payload.length ≠ sentPayload length seq) ∧
        chargedWireSize length seq = refundedWireSize length seq := by
  intro out inn
  have hpos : length ≠ 0 := by
    rintro rfl
    rcases haccepted with h | h
    · simp only [Table.beginSend, if_true] at h
      split_ifs at h
    · simp only [Table.onAnnounce, if_true] at h
      split_ifs at h
  refine ⟨fun hfits => ⟨rfl, hfits.segmented hpos, fun seq hseq => ?_⟩,
    fun h => Segmented.fits h.2.1 hpos⟩
  obtain ⟨hoffset, hsent, hwire⟩ := hfits.words hpos hseq
  refine ⟨?_, hsent, fun payload dest => ?_, hwire⟩
  · rw [hsent]
    simp [OutTransfer.payload, out, OutTransfer.start]
  · rw [hsent]
    exact InTransfer.onData_malformed_iff payload rfl rfl hseq hoffset

/-- A table of one record each way, under the given limit. -/
def limitedTable (maxTransferBytes : ℕ) : Table := (Table.init 1 1 1 maxTransferBytes).get rfl

theorem segmentation_exact_two_packets :
    Fits 1200 ∧ ((limitedTable 5000).beginSend 0 ⟨[], 0, 0⟩ 5 (some fun _ => 7) 1200 0).1 = .ok ∧
      Segmented 1200 2 :=
  ⟨by decide, by decide +kernel,
    ((segmentation_exact (limitedTable 5000) 0 ⟨[], 0, 0⟩ 5 (fun _ => 7) 1200 1163 0
      (.inl (by decide +kernel))).mp (by decide)).2.1⟩

/-- One byte more than `2 ^ 32` strides is accepted with a count of one packet, which does not
reach the byte at 1163. -/
theorem wrapped_count_leaves_gap :
    ((limitedTable (2 ^ 63)).beginSend 0 ⟨[], 0, 0⟩ 5 (some fun _ => 7) (2 ^ 32 * 1163 + 1) 0).1 = .ok ∧
      ((limitedTable (2 ^ 63)).onAnnounce 0 ⟨[], 0, 0⟩ 5 (2 ^ 32 * 1163 + 1) 1163 0).1 = .ok ∧
      packetsFor (2 ^ 32 * 1163 + 1) = 1 ∧
      ¬ Segmented (2 ^ 32 * 1163 + 1) (packetsFor (2 ^ 32 * 1163 + 1)) := by
  refine ⟨by decide +kernel, by decide +kernel, by decide +kernel, fun h => ?_⟩
  obtain ⟨seq, hseq, -, hlt⟩ := h.covered 1163 (by decide)
  have hcount : packetsFor (2 ^ 32 * 1163 + 1) = 1 := by decide +kernel
  obtain rfl : seq = 0 := by omega
  exact absurd hlt (by decide +kernel)

end BcpFlux.Transfer
