import BcpFlux.Basic
import BcpFlux.Library.Runs
import BcpFlux.Library.Window
import BcpFlux.Wire.Packet

/-! # The receiving end of a transfer

`InTransfer` with its ring of placed bits, and what `transfer_table.cpp` does to it
once the slot is found: the announcement, `Allow`, `OnData`, `Progress`,
`TakeAckDebt` and `ReceiveState`.  The destination is the application's buffer; a
byte of it is known once this transfer has written it.
-/

namespace BcpFlux.Transfer
open Library Wire

def transferWindow : ℕ := 1024
def transferWireHeaderSize : ℕ := 7
def ackEveryPackets : ℕ := 2

def transferStride : ℕ :=
  maxWirePacketSize - wireSecureHeadSize - wirePeerTagSize - wireTagSize -
    wireSecureChannelSize - transferWireHeaderSize

theorem transferStride_eq : transferStride = 1163 := rfl

theorem window_isPow2 : IsPow2 transferWindow := ⟨10, rfl⟩

/-- `PacketsFor`: the sum is taken in 64 bits and the count kept in 32. -/
def packetsFor (length : ℕ) : ℕ := u32 ((length + transferStride - 1) % 2 ^ 64 / transferStride)

def payloadAt (length seq : ℕ) : ℕ :=
  if length - seq * transferStride < transferStride then length - seq * transferStride
  else transferStride

inductive Error where
  | ok
  | invalidState
  | invalidParam
  | tooLarge
  | malformed
  | alreadyPending
  | limitReached
  | poolExhausted
  | notFound
  | refused
deriving DecidableEq, Repr

/-- What has been written at each offset of a buffer. -/
abbrev Buffer := ℕ → Option UInt8

def Buffer.blank : Buffer := fun _ => none

/-- `memcpy` to an offset of the buffer. -/
def Buffer.write (buffer : Buffer) (offset : ℕ) (bytes : List UInt8) : Buffer := fun i =>
  if offset ≤ i ∧ i < offset + bytes.length then bytes[i - offset]? else buffer i

structure InTransfer where
  peerSlot : ℕ
  peerAddr : Address
  transferId : ℕ
  length : ℕ
  packetCount : ℕ
  destination : Option Buffer
  announced : Bool
  complete : Bool
  recvNext : ℕ
  placed : ℕ
  sinceAck : ℕ
  ackOwed : Bool
  placedBits : ℕ → Bool

namespace InTransfer

/-- The record `OnAnnounce` writes into a fresh slot. -/
def announce (peerSlot : ℕ) (peerAddr : Address) (transferId length : ℕ) : InTransfer where
  peerSlot := peerSlot
  peerAddr := peerAddr
  transferId := transferId
  length := length
  packetCount := packetsFor length
  destination := none
  announced := true
  complete := false
  recvNext := 0
  placed := 0
  sinceAck := 0
  ackOwed := true
  placedBits := fun _ => false

/-- `Allow` on the record: the buffer is attached once. -/
def allow (t : InTransfer) : Error × InTransfer :=
  if t.announced = false ∨ t.destination.isSome then (.invalidState, t)
  else (.ok, { t with destination := some .blank })

def buffer (t : InTransfer) : Buffer := t.destination.getD .blank

/-- The cursor walks over what is now contiguous, clearing each bit as it passes. -/
def advance (t : InTransfer) : InTransfer :=
  let r := walk transferWindow (t.packetCount - t.recvNext) t.placedBits t.recvNext
  { t with placedBits := r.1, recvNext := r.2 }

/-- The part of `OnData` behind every check: write, mark, walk, and see whether that was
the last packet.  The flag says that a finished entry is queued. -/
def place (t : InTransfer) (dest : Buffer) (seq : ℕ) (payload : List UInt8) : InTransfer × Bool :=
  let written : InTransfer := { t with
    destination := some (dest.write (seq * transferStride) payload)
    placedBits := put transferWindow t.placedBits seq true
    placed := t.placed + 1
    ackOwed := t.ackOwed || decide (seq ≠ t.recvNext) }
  let walked := written.advance
  let owed := { walked with ackOwed := walked.ackOwed || decide (walked.recvNext ≠ t.recvNext) }
  if owed.packetCount ≤ owed.recvNext then ({ owed with complete := true }, true)
  else (owed, false)

/-- Every arrival counts towards the next acknowledgement, before any check. -/
def arrived (t : InTransfer) : InTransfer := { t with sinceAck := u32 (t.sinceAck + 1) }

/-- `OnData` once the slot is found: verdict, record, and whether the transfer finished. -/
def onData (t : InTransfer) (seq : ℕ) (payload : List UInt8) : Error × InTransfer × Bool :=
  let t := t.arrived
  match t.destination with
  | none => (.alreadyPending, { t with ackOwed := true }, false)
  | some dest =>
    if t.complete then (.ok, t, false)
    else if t.packetCount ≤ seq then (.malformed, t, false)
    else if t.length ≤ seq * transferStride then (.malformed, t, false)
    else if payload.length ≠ payloadAt t.length seq then (.malformed, t, false)
    else if seq < t.recvNext then (.ok, { t with ackOwed := true }, false)
    else if t.placedBits (slot transferWindow seq) then (.ok, { t with ackOwed := true }, false)
    else (.ok, t.place dest seq payload)

/-- `Progress` of an incoming transfer. -/
def progress (t : InTransfer) : ℕ :=
  if t.length < t.recvNext * transferStride then t.length else t.recvNext * transferStride

def takeAckDebt (t : InTransfer) : Bool × InTransfer :=
  if t.ackOwed || decide (ackEveryPackets ≤ t.sinceAck) then
    (true, { t with ackOwed := false, sinceAck := 0 })
  else (false, t)

/-- The bitmap of `ReceiveState`: bit `i` names the sequence `i` past the cursor.  The
first sequence past the last packet ends the loop, before the sum could wrap. -/
def ackBitmap (t : InTransfer) (i : ℕ) : Bool :=
  decide (i < transferWindow ∧ t.recvNext + i < t.packetCount) &&
    t.placedBits (slot transferWindow (t.recvNext + i))

/-! ## What one arrival can do -/

section Place
variable (t : InTransfer) (dest : Buffer) (seq : ℕ) (payload : List UInt8)

def placeWalk : (ℕ → Bool) × ℕ :=
  walk transferWindow (t.packetCount - t.recvNext) (put transferWindow t.placedBits seq true) t.recvNext

@[simp] theorem place_length : (t.place dest seq payload).1.length = t.length := by
  unfold place; dsimp only; split <;> rfl

@[simp] theorem place_packetCount : (t.place dest seq payload).1.packetCount = t.packetCount := by
  unfold place; dsimp only; split <;> rfl

@[simp] theorem place_destination : (t.place dest seq payload).1.destination =
    some (dest.write (seq * transferStride) payload) := by
  unfold place; dsimp only; split <;> rfl

@[simp] theorem place_placedBits :
    (t.place dest seq payload).1.placedBits = (t.placeWalk seq).1 := by
  unfold place; dsimp only; split <;> rfl

@[simp] theorem place_recvNext : (t.place dest seq payload).1.recvNext = (t.placeWalk seq).2 := by
  unfold place; dsimp only; split <;> rfl

@[simp] theorem arrived_length : t.arrived.length = t.length := rfl

@[simp] theorem arrived_packetCount : t.arrived.packetCount = t.packetCount := rfl

@[simp] theorem arrived_complete : t.arrived.complete = t.complete := rfl

@[simp] theorem arrived_placeWalk : t.arrived.placeWalk seq = t.placeWalk seq := rfl

theorem place_complete :
    ((t.place dest seq payload).1.complete = true ↔
        t.complete = true ∨ t.packetCount ≤ (t.placeWalk seq).2) ∧
      ((t.place dest seq payload).2 = true ↔ t.packetCount ≤ (t.placeWalk seq).2) := by
  unfold place
  dsimp only
  split
  · next h =>
    have hend : t.packetCount ≤ (t.placeWalk seq).2 := h
    simp [hend]
  · next h =>
    have hopen : ¬ t.packetCount ≤ (t.placeWalk seq).2 := h
    simp [hopen, advance]

end Place

section
variable (t : InTransfer) (seq : ℕ) (payload : List UInt8)

theorem onData_cases :
    ((t.onData seq payload).2.1 =
        { t.arrived with ackOwed := (t.onData seq payload).2.1.ackOwed } ∧
      (t.onData seq payload).2.2 = false) ∨
      ∃ dest, t.destination = some dest ∧ t.complete = false ∧ seq < t.packetCount ∧
        seq * transferStride < t.length ∧ payload.length = payloadAt t.length seq ∧
        t.recvNext ≤ seq ∧ t.placedBits (slot transferWindow seq) = false ∧
        (t.onData seq payload).2 = t.arrived.place dest seq payload := by
  unfold onData
  dsimp only
  split
  · exact .inl ⟨rfl, rfl⟩
  next dest hdest =>
  split
  · exact .inl ⟨rfl, rfl⟩
  split
  · exact .inl ⟨rfl, rfl⟩
  split
  · exact .inl ⟨rfl, rfl⟩
  split
  · exact .inl ⟨rfl, rfl⟩
  split
  · exact .inl ⟨rfl, rfl⟩
  split
  · exact .inl ⟨rfl, rfl⟩
  next hcomplete hcount hlen hpayload hbelow hbit =>
  exact .inr ⟨dest, hdest, Bool.eq_false_of_not_eq_true hcomplete, Nat.lt_of_not_le hcount,
    Nat.lt_of_not_le hlen, Decidable.of_not_not hpayload, Nat.le_of_not_lt hbelow,
    Bool.eq_false_of_not_eq_true hbit, rfl⟩

@[simp] theorem onData_length :
    (t.onData seq payload).2.1.length = t.length := by
  rcases onData_cases t seq payload with ⟨heq, -⟩ | ⟨dest, _, _, _, _, _, _, _, heq⟩
  · rw [heq, arrived_length]
  · rw [heq, place_length, arrived_length]

@[simp] theorem onData_packetCount :
    (t.onData seq payload).2.1.packetCount = t.packetCount := by
  rcases onData_cases t seq payload with ⟨heq, -⟩ | ⟨dest, _, _, _, _, _, _, _, heq⟩
  · rw [heq, arrived_packetCount]
  · rw [heq, place_packetCount, arrived_packetCount]

end

/-! ## What the cursor counts -/

/-- Offsets of the packet at `seq` are written with bytes that are `good` there. -/
def Filled (good : ℕ → UInt8 → Prop) (dest : Buffer) (length seq : ℕ) : Prop :=
  ∀ i, seq * transferStride ≤ i → i < (seq + 1) * transferStride → i < length →
    ∃ b, dest i = some b ∧ good i b

/-- The bytes of a payload are `good` at the offsets they go to. -/
def GoodPayload (good : ℕ → UInt8 → Prop) (seq : ℕ) (payload : List UInt8) : Prop :=
  ∀ k b, payload[k]? = some b → good (seq * transferStride + k) b

section Write
variable {good : ℕ → UInt8 → Prop} {dest : Buffer} {length seq : ℕ} {payload : List UInt8}

theorem payloadAt_le (length seq : ℕ) : payloadAt length seq ≤ transferStride := by
  unfold payloadAt
  split <;> omega

theorem write_of_mem (dest : Buffer) {offset i : ℕ} (hle : offset ≤ i) (hlt : i < offset + payload.length) :
    ∃ b, dest.write offset payload i = some b ∧ payload[i - offset]? = some b := by
  have hget := List.getElem?_eq_getElem (l := payload) (i := i - offset) (by omega)
  exact ⟨_, by rw [Buffer.write, if_pos ⟨hle, hlt⟩, hget], hget⟩

theorem write_cases {offset i : ℕ} {b : UInt8} (h : dest.write offset payload i = some b) :
    (offset ≤ i ∧ i < offset + payload.length ∧ payload[i - offset]? = some b) ∨
      dest i = some b := by
  unfold Buffer.write at h
  split at h
  · next hin => exact .inl ⟨hin.1, hin.2, h⟩
  · exact .inr h

theorem Filled.write (h : Filled good dest length seq) {n : ℕ} (hgood : GoodPayload good n payload) :
    Filled good (dest.write (n * transferStride) payload) length seq := by
  intro i hle hlt hi
  by_cases hin : n * transferStride ≤ i ∧ i < n * transferStride + payload.length
  · obtain ⟨b, hb, hget⟩ := write_of_mem dest hin.1 hin.2
    refine ⟨b, hb, ?_⟩
    have := hgood _ b hget
    rwa [Nat.add_sub_cancel' hin.1] at this
  · rw [Buffer.write, if_neg hin]
    exact h i hle hlt hi

theorem filled_write (hlen : payload.length = payloadAt length seq)
    (hgood : GoodPayload good seq payload) :
    Filled good (dest.write (seq * transferStride) payload) length seq := by
  intro i hle hlt hi
  have hstride : (seq + 1) * transferStride = seq * transferStride + transferStride := Nat.succ_mul _ _
  have hin : i < seq * transferStride + payload.length := by
    rw [hlen, payloadAt]
    split <;> omega
  obtain ⟨b, hb, hget⟩ := write_of_mem dest hle hin
  refine ⟨b, hb, ?_⟩
  have := hgood _ b hget
  rwa [Nat.add_sub_cancel' hle] at this

end Write

/-- Cursor and bits count only packets whose bytes are in the buffer, and every byte in
the buffer is `good` at its offset. -/
structure Counted (good : ℕ → UInt8 → Prop) (t : InTransfer) : Prop where
  marks : Marks transferWindow (Filled good t.buffer t.length) t.placedBits t.recvNext
  inside : ∀ i b, t.buffer i = some b → i < t.length ∧ good i b
  cursor_le : t.recvNext ≤ t.packetCount
  complete_iff : t.complete = true → t.recvNext = t.packetCount

variable {good : ℕ → UInt8 → Prop} {t : InTransfer}

theorem counted_announce (peerSlot : ℕ) (peerAddr : Address) (transferId length : ℕ) :
    Counted good (announce peerSlot peerAddr transferId length) where
  marks := Marks.empty (by simp [announce])
  inside i b h := by simp [announce, buffer, Buffer.blank] at h
  cursor_le := Nat.zero_le _
  complete_iff h := by simp [announce] at h

theorem Counted.allow (h : Counted good t) : Counted good t.allow.2 := by
  unfold InTransfer.allow
  split
  · exact h
  · next hnone =>
    have hbuffer : t.buffer = .blank := by
      have : t.destination = none := by simpa using (not_or.mp hnone).2
      simp [buffer, this]
    exact ⟨by simpa [buffer, hbuffer] using hbuffer ▸ h.marks,
      fun i b hb => by simp [buffer, Buffer.blank] at hb, h.cursor_le, h.complete_iff⟩

/-- A mark is set for an arrival in the window only, and kept for what it promises. -/
theorem onData_marks {P : ℕ → Prop} (h : Marks transferWindow P t.placedBits t.recvNext) {seq : ℕ}
    {payload : List UInt8} (hseq : seq < t.recvNext + transferWindow) (hP : P seq) :
    Marks transferWindow P (t.onData seq payload).2.1.placedBits
      (t.onData seq payload).2.1.recvNext := by
  rcases onData_cases t seq payload with ⟨heq, -⟩ | ⟨dest, _, _, _, _, _, hle, _, heq⟩
  · rw [heq]
    exact h
  · rw [heq, place_placedBits, place_recvNext]
    exact (h.mark window_isPow2 hle hseq hP).walk window_isPow2 (t.packetCount - t.recvNext)

theorem recvNext_le_onData (t : InTransfer) (seq : ℕ) (payload : List UInt8) :
    t.recvNext ≤ (t.onData seq payload).2.1.recvNext := by
  rcases onData_cases t seq payload with ⟨heq, -⟩ | ⟨dest, _, _, _, _, _, _, _, heq⟩
  · rw [heq, arrived]
  · rw [heq, place_recvNext]
    exact le_walk transferWindow _ _ _

theorem Filled.onData {length n seq : ℕ} {payload : List UInt8}
    (h : Filled good t.buffer length n) (hgood : GoodPayload good seq payload) :
    Filled good (t.onData seq payload).2.1.buffer length n := by
  rcases onData_cases t seq payload with ⟨heq, -⟩ | ⟨dest, hdest, _, _, _, _, _, _, heq⟩
  · rw [heq]
    exact h
  · rw [heq, buffer, place_destination]
    rw [buffer, hdest] at h
    exact h.write hgood

theorem allow_buffer (t : InTransfer) : t.allow.2.buffer = t.buffer := by
  unfold InTransfer.allow
  split
  · rfl
  · next hnone =>
    have : t.destination = none := by simpa using (not_or.mp hnone).2
    simp [buffer, this]

theorem allow_eq (t : InTransfer) : t.allow.2 = { t with destination := t.allow.2.destination } := by
  unfold InTransfer.allow
  split <;> rfl

/-- One arrival: a sequence that is no further than a window ahead of the cursor, or that
its number or its length refuses, leaves cursor and bits true. -/
theorem Counted.onData (h : Counted good t) {seq : ℕ} {payload : List UInt8}
    (hseq : seq < t.recvNext + transferWindow ∨ t.packetCount ≤ seq ∨
      payload.length ≠ payloadAt t.length seq)
    (hgood : GoodPayload good seq payload) : Counted good (t.onData seq payload).2.1 := by
  rcases onData_cases t seq payload with
    ⟨heq, -⟩ | ⟨dest, hdest, hopen, hcount, hin, hlen, hle, -, heq⟩
  · rw [heq]
    exact ⟨h.marks, h.inside, h.cursor_le, h.complete_iff⟩
  have hbuffer : t.buffer = dest := by simp [buffer, hdest]
  have hmarks := h.marks
  rw [hbuffer] at hmarks
  have hwalk : Marks transferWindow (Filled good (dest.write (seq * transferStride) payload) t.length)
      (t.placeWalk seq).1 (t.placeWalk seq).2 :=
    ((hmarks.mono fun n hn => hn.write hgood).mark window_isPow2 hle (by omega)
      (filled_write hlen hgood)).walk window_isPow2 (t.packetCount - t.recvNext)
  have hcursor : (t.placeWalk seq).2 ≤ t.packetCount := by
    have := walk_le transferWindow (t.packetCount - t.recvNext)
      (put transferWindow t.placedBits seq true) t.recvNext
    rw [placeWalk]
    omega
  rw [heq]
  refine ⟨?_, ?_, ?_, ?_⟩
  · simpa [buffer] using hwalk
  · intro i b hb
    simp only [buffer, place_destination, Option.getD_some] at hb
    rw [place_length, arrived_length]
    rcases write_cases hb with ⟨hle', hlt, hget⟩ | hold
    · have hpayload : payload.length ≤ t.length - seq * transferStride := by
        rw [hlen, payloadAt]
        split <;> omega
      have hgood' := hgood _ b hget
      rw [Nat.add_sub_cancel' hle'] at hgood'
      exact ⟨by omega, hgood'⟩
    · exact h.inside i b (hbuffer ▸ hold)
  · simpa using hcursor
  · intro hdone
    rw [(place_complete _ dest seq payload).1] at hdone
    have hend : t.packetCount ≤ (t.placeWalk seq).2 := by simpa [hopen] using hdone
    simpa using le_antisymm hcursor hend

/-- Every offset below the cursor holds a good byte. -/
theorem Counted.written (h : Counted good t) {i : ℕ} (hbelow : i < t.recvNext * transferStride)
    (hin : i < t.length) : ∃ b, t.buffer i = some b ∧ good i b := by
  have hstride : 0 < transferStride := by decide
  -- the packet that owns offset `i` is below the cursor
  have hseq : i / transferStride < t.recvNext := by rwa [Nat.div_lt_iff_lt_mul hstride]
  apply h.marks.below _ hseq i (Nat.div_mul_le_self i transferStride) ?_ hin
  rw [Nat.mul_comm]
  exact Nat.lt_mul_div_succ i hstride

end InTransfer

end BcpFlux.Transfer
