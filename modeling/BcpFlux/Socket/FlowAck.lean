import BcpFlux.Flow.SeenBitmap
import BcpFlux.Library.Codec
import BcpFlux.Socket.Session
import BcpFlux.Wire.Writer

/-! # The flow acknowledgement on the wire

`BuildPeerAckBody` packs one entry for every association of a peer that owes an
acknowledgement, `SendSecureControl` seals the body behind a channel byte, and at the far
end `ProcessSecureControl` hands what it takes for the body to `Flow_Ack`.  The opened
packet still ends in its authentication tag, and the handler's length includes it.
-/

namespace BcpFlux.Socket
open Library Wire BcpFlux.Flow Crypto

def secureChannelFlowAck : UInt8 := 0x04

/-! ## Writing -/

def encodeAckRange (range : AckRange) : List UInt8 :=
  leBytes 4 range.first ++ leBytes 4 range.last

/-- Flow id, epoch, range count, delivery cursor, delay, and the ranges. -/
def encodeAckEntry (entry : AckEntry) : List UInt8 :=
  leBytes 2 entry.flowId ++ (entry.flowEpoch :: UInt8.ofNat entry.ranges.length ::
    (leBytes 4 entry.recvNext ++ (leBytes 2 entry.ackDelay ++ entry.ranges.flatMap encodeAckRange)))

def ackEntrySize (entry : AckEntry) : ℕ := wireAckEntryHeadSize + entry.ranges.length * 8

/-- `BuildPeerAckBody` over the associations of the peer's directory, in its order, with
`bodyLen` bytes of `cap` already taken: the associations afterwards and the entries written. -/
def buildPeerAckBody (now cap : ℕ) : ℕ → List InAssociation → List InAssociation × List AckEntry
  | _, [] => ([], [])
  | bodyLen, flow :: flows =>
    let taken := flow.takeAckEntry now (cap - bodyLen)
    let bodyLen := bodyLen + (taken.2.map ackEntrySize).getD 0
    -- no room for another entry
    if cap < bodyLen + wireAckEntryHeadSize + 8 then (taken.1 :: flows, taken.2.toList)
    else
      let others := buildPeerAckBody now cap bodyLen flows
      (taken.1 :: others.1, taken.2.toList ++ others.2)

def ackBody (entries : List AckEntry) : List UInt8 := entries.flatMap encodeAckEntry

/-! ## Sending -/

/-- The plaintext `SendSecureControl` builds: always tagged, the channel byte first. -/
def secureControlWriter (channel : UInt8) (payload : List UInt8) : Option PacketSlotWriter :=
  match (PacketSlotWriter.fresh.putU8 ctrlTagged).reserveSecureHeader true with
  | none => none
  | some writer => (writer.putU8 channel).putBytes payload

/-- The datagram handed to the kernel, if the payload fits the writer. -/
def sendSecureControl (suite : CipherSuite) (m : PeerSendMaterials) (channel : UInt8)
    (payload : List UInt8) : Option Datagram :=
  (secureControlWriter channel payload).map fun writer =>
    sealSecurePacket suite (Datagram.controller writer.data)
      (writer.data.drop (wireSecureHeadSize + wirePeerTagSize)) m

/-- `FlushPeerAcks` on an established peer with a send slot at hand: the associations
afterwards and the datagram handed to the kernel. -/
def flushPeerAcks (suite : CipherSuite) (m : PeerSendMaterials) (now : ℕ)
    (flows : List InAssociation) : List InAssociation × Option Datagram :=
  let built := buildPeerAckBody now maxWirePacketSize 0 flows
  if (ackBody built.2).length = 0 then (built.1, none)
  else (built.1, sendSecureControl suite m secureChannelFlowAck (ackBody built.2))

/-! ## Reading -/

/-- The inner loop of `Flow_Ack`; nothing when the payload ends inside a range. -/
def readAckRanges : ℕ → List UInt8 → Option (List AckRange × List UInt8)
  | 0, bytes => some ([], bytes)
  | count + 1, bytes =>
    if bytes.length < 8 then none
    else match readAckRanges count (bytes.drop 8) with
      | none => none
      | some (ranges, rest) =>
        some (⟨ofLeBytes (bytes.take 4), ofLeBytes ((bytes.drop 4).take 4)⟩ :: ranges, rest)

/-- One turn of the outer loop of `Flow_Ack`; nothing where the loop ends. -/
def readAckEntry (bytes : List UInt8) : Option (AckEntry × List UInt8) :=
  if bytes.length < wireAckEntryHeadSize then none
  else
    let rangeCount := ((bytes.drop 3).headD 0).toNat
    if flowAckRangeCount < rangeCount then none
    else match readAckRanges rangeCount (bytes.drop wireAckEntryHeadSize) with
      | none => none
      | some (ranges, rest) =>
        some ({ flowId := ofLeBytes (bytes.take 2)
                flowEpoch := (bytes.drop 2).headD 0 &&& flowEpochMask
                recvNext := ofLeBytes ((bytes.drop 4).take 4)
                ackDelay := ofLeBytes ((bytes.drop 8).take 2)
                ranges := ranges }, rest)

/-- The entries `Flow_Ack` applies to the flow table, in order. -/
def flowAck (payload : List UInt8) : List AckEntry := readAll readAckEntry payload.length payload

/-- The channel and the payload `ProcessSecureControl` dispatches on: everything behind the
content offset, up to its scratch buffer. -/
def processSecureControl (d : Datagram) : Option (UInt8 × List UInt8) :=
  if d.length < d.contentOffset then none
  else some (d.secureChannel, (d.drop d.contentOffset).take maxWirePacketSize)

/-- What the peer applies of a datagram that arrives from its own address. -/
def receiveFlowAck (suite : CipherSuite) (key headerKey : Key) (lane : UInt8) (d : Datagram) :
    Option (List AckEntry) :=
  match openSecurePacket suite d key headerKey lane with
  | none => none
  | some (_, opened) =>
    match processSecureControl opened with
    | none => none
    | some (channel, payload) =>
      if channel = secureChannelFlowAck then some (flowAck payload) else none

/-! ## An entry is read back as written -/

/-- The fields of a receiving association as the slot stores them: a 16-bit id, 32-bit
cursors, a generation of three bits. -/
structure Stored (flow : InAssociation) : Prop where
  flowId_lt : flow.flowId < 256 ^ 2
  flowEpoch_eq : flow.flowEpoch &&& flowEpochMask = flow.flowEpoch
  recvNext_lt : flow.recvNext < 256 ^ 4
  recvHighest_lt : flow.recvHighest < 256 ^ 4

structure Fits (entry : AckEntry) : Prop where
  flowId_lt : entry.flowId < 256 ^ 2
  flowEpoch_eq : entry.flowEpoch &&& flowEpochMask = entry.flowEpoch
  recvNext_lt : entry.recvNext < 256 ^ 4
  ackDelay_lt : entry.ackDelay < 256 ^ 2
  count_le : entry.ranges.length ≤ flowAckRangeCount
  ranges_lt : ∀ range ∈ entry.ranges, range.first < 256 ^ 4 ∧ range.last < 256 ^ 4

@[simp] theorem encodeAckRange_length (range : AckRange) : (encodeAckRange range).length = 8 := by
  simp [encodeAckRange]

theorem encodeAckRanges_length (ranges : List AckRange) :
    (ranges.flatMap encodeAckRange).length = ranges.length * 8 := by
  induction ranges with
  | nil => rfl
  | cons range ranges ih =>
    simp only [List.flatMap_cons, List.length_append, encodeAckRange_length, ih, List.length_cons]
    omega

@[simp] theorem encodeAckEntry_length (entry : AckEntry) :
    (encodeAckEntry entry).length = ackEntrySize entry := by
  simp only [encodeAckEntry, List.length_append, List.length_cons, leBytes_length,
    encodeAckRanges_length, ackEntrySize, wireAckEntryHeadSize]
  omega

theorem length_le_ackBody (entries : List AckEntry) : entries.length ≤ (ackBody entries).length := by
  apply length_le_flatMap
  intro entry _
  rw [encodeAckEntry_length, ackEntrySize, wireAckEntryHeadSize]
  omega

theorem readAckRanges_encode {ranges : List AckRange} (rest : List UInt8)
    (h : ∀ range ∈ ranges, range.first < 256 ^ 4 ∧ range.last < 256 ^ 4) :
    readAckRanges ranges.length (ranges.flatMap encodeAckRange ++ rest) = some (ranges, rest) := by
  induction ranges with
  | nil => rfl
  | cons range ranges ih =>
    obtain ⟨hfirst, hlast⟩ := h range List.mem_cons_self
    have hsplit : (range :: ranges).flatMap encodeAckRange ++ rest =
        leBytes 4 range.first ++
          (leBytes 4 range.last ++ (ranges.flatMap encodeAckRange ++ rest)) := by
      simp [encodeAckRange]
    have hdrop : (leBytes 4 range.first ++ (leBytes 4 range.last ++
        (ranges.flatMap encodeAckRange ++ rest))).drop 8 = ranges.flatMap encodeAckRange ++ rest := by
      rw [show 8 = 4 + 4 from rfl, ← List.drop_drop, drop_leBytes, drop_leBytes]
    have hlong : ¬ (leBytes 4 range.first ++ (leBytes 4 range.last ++
        (ranges.flatMap encodeAckRange ++ rest))).length < 8 := by
      simp only [List.length_append, leBytes_length]
      omega
    rw [hsplit, List.length_cons, readAckRanges, if_neg hlong, hdrop,
      ih fun range hr => h range (List.mem_cons_of_mem _ hr)]
    simp only [take_leBytes, drop_leBytes, ofLeBytes_leBytes_of_lt hfirst,
      ofLeBytes_leBytes_of_lt hlast]

theorem readAckEntry_encode {entry : AckEntry} (h : Fits entry) (rest : List UInt8) :
    readAckEntry (encodeAckEntry entry ++ rest) = some (entry, rest) := by
  have hlong : ¬ (encodeAckEntry entry ++ rest).length < wireAckEntryHeadSize := by
    rw [List.length_append, encodeAckEntry_length, ackEntrySize]
    omega
  have hcount : (UInt8.ofNat entry.ranges.length).toNat = entry.ranges.length := by
    have hle := h.count_le
    rw [flowAckRangeCount] at hle
    rw [UInt8.toNat_ofNat', Nat.mod_eq_of_lt (by omega)]
  have hranges := readAckRanges_encode rest h.ranges_lt
  have hid := ofLeBytes_leBytes_of_lt h.flowId_lt
  have hnext := ofLeBytes_leBytes_of_lt h.recvNext_lt
  have hdelay := ofLeBytes_leBytes_of_lt h.ackDelay_lt
  rw [readAckEntry, if_neg hlong]
  -- ten bytes in front of the ranges, one by one, so that each field reads its own
  simp only [leBytes] at hid hnext hdelay
  simp only [encodeAckEntry, leBytes, List.cons_append, List.nil_append, wireAckEntryHeadSize,
    List.drop_succ_cons, List.drop_zero, List.take_succ_cons, List.take_zero, List.headD_cons,
    hcount, if_neg (Nat.not_lt.mpr h.count_le), hranges, hid, hnext, hdelay, h.flowEpoch_eq]

/-! ## What an association reports fits -/

theorem buildAckRanges_ackImmediate (flow : InAssociation) (maxRanges : ℕ) :
    InAssociation.buildAckRanges { flow with ackImmediate := false } maxRanges =
      flow.buildAckRanges maxRanges := by
  have hskip : ∀ floor want s, InAssociation.skipSeen { flow with ackImmediate := false } floor
      want s = flow.skipSeen floor want s := by
    intro floor want s
    induction s with
    | zero => rfl
    | succ s ih =>
      rw [InAssociation.skipSeen, InAssociation.skipSeen, ih]
      rfl
  have hfrom : ∀ floor s, InAssociation.ackRangesFrom { flow with ackImmediate := false } floor
      maxRanges s = flow.ackRangesFrom floor maxRanges s := by
    intro floor
    induction maxRanges with
    | zero => exact fun s => rfl
    | succ maxRanges ih =>
      intro s
      simp only [InAssociation.ackRangesFrom, hskip, ih]
  simp only [InAssociation.buildAckRanges, hfrom]

/-- Bytes of the entry an association owes; none when it owes nothing. -/
def owedSize (flow : InAssociation) : ℕ :=
  if flow.life = .opened ∧ 0 < flow.newSinceFlush then
    wireAckEntryHeadSize + (flow.buildAckRanges flowAckRangeCount).length * 8
  else 0

theorem takeAckEntry_cases (flow : InAssociation) (now room : ℕ) :
    ((flow.takeAckEntry now room).2 = none ∧
        (flow.takeAckEntry now room).1.newSinceFlush = flow.newSinceFlush ∧
        (owedSize flow = 0 ∨ room < owedSize flow)) ∨
      ∃ ackDelay ≤ uint16Max, (flow.takeAckEntry now room).2 = some ⟨flow.flowId, flow.flowEpoch,
          flow.recvNext, ackDelay, flow.buildAckRanges flowAckRangeCount⟩ ∧
        0 < flow.newSinceFlush ∧ (flow.takeAckEntry now room).1.newSinceFlush = 0 ∧
        owedSize flow = wireAckEntryHeadSize +
          (flow.buildAckRanges flowAckRangeCount).length * 8 ∧ owedSize flow ≤ room := by
  have hranges := buildAckRanges_ackImmediate flow flowAckRangeCount
  rw [InAssociation.takeAckEntry]
  by_cases howed : flow.life = .opened ∧ 0 < flow.newSinceFlush
  · have hsize : owedSize flow = wireAckEntryHeadSize +
        (flow.buildAckRanges flowAckRangeCount).length * 8 := if_pos howed
    rw [if_pos howed]
    dsimp only
    rw [hranges, ← hsize]
    by_cases hroom : owedSize flow ≤ room
    · rw [if_pos hroom]
      exact Or.inr ⟨_, Nat.min_le_right _ _, rfl, howed.2, rfl, rfl, hroom⟩
    · rw [if_neg hroom]
      exact Or.inl ⟨rfl, rfl, Or.inr (Nat.lt_of_not_le hroom)⟩
  · rw [if_neg howed]
    exact Or.inl ⟨rfl, rfl, Or.inl (if_neg howed)⟩

variable {now : ℕ}

theorem takeAckEntry_fits {flow : InAssociation} (h : Stored flow) {room : ℕ} {entry : AckEntry}
    (htaken : (flow.takeAckEntry now room).2 = some entry) : Fits entry := by
  rcases takeAckEntry_cases flow now room with ⟨hnone, -⟩ | ⟨ackDelay, hdelay, hsome, -⟩
  · rw [hnone] at htaken
    cases htaken
  · rw [hsome] at htaken
    cases htaken
    have hhigh := h.recvHighest_lt
    exact
      { flowId_lt := h.flowId_lt
        flowEpoch_eq := h.flowEpoch_eq
        recvNext_lt := h.recvNext_lt
        ackDelay_lt := lt_of_le_of_lt hdelay (by decide)
        count_le := (flow.buildAckRanges_runs flowAckRangeCount).length_le
        ranges_lt := by
          intro range hmem
          obtain ⟨hfirst, hmarked, -⟩ := (flow.buildAckRanges_runs flowAckRangeCount).run range hmem
          have hlast := (hmarked range.last hfirst le_rfl).1.2
          omega }

variable {flows : List InAssociation}

theorem buildPeerAckBody_fits (h : ∀ flow ∈ flows, Stored flow)
    (now cap bodyLen : ℕ) : ∀ entry ∈ (buildPeerAckBody now cap bodyLen flows).2, Fits entry := by
  induction flows generalizing bodyLen with
  | nil => simp [buildPeerAckBody]
  | cons flow flows ih =>
    intro entry hmem
    have hhead : entry ∈ (flow.takeAckEntry now (cap - bodyLen)).2.toList → Fits entry := by
      intro hin
      exact takeAckEntry_fits (h flow List.mem_cons_self) (Option.mem_toList.mp hin)
    have htail := ih fun other ho => h other (List.mem_cons_of_mem flow ho)
    rw [buildPeerAckBody] at hmem
    split_ifs at hmem
    · exact hhead hmem
    · rcases List.mem_append.mp hmem with hin | hin
      · exact hhead hin
      · exact htail _ entry hin

/-! ## The tag behind the body -/

def authTag (d : Datagram) : List UInt8 := d.drop (d.length - wireTagSize)

variable {tag : List UInt8}

/-- Sixteen bytes hold one entry head and six bytes more, which is an entry without ranges
or none at all. -/
theorem readAckEntry_tag (htag : tag.length = wireTagSize) :
    if (tag.drop 3).headD 0 = 0 then ∃ entry, readAckEntry tag = some (entry, tag.drop 10)
    else readAckEntry tag = none := by
  have hlong : ¬ tag.length < wireAckEntryHeadSize := by
    rw [htag]
    decide
  have hleft : (tag.drop wireAckEntryHeadSize).length < 8 := by
    rw [List.length_drop, htag]
    decide
  split_ifs with hzero
  · rw [readAckEntry, if_neg hlong, hzero]
    exact ⟨_, rfl⟩
  · rw [readAckEntry, if_neg hlong]
    dsimp only
    cases hcount : ((tag.drop 3).headD 0).toNat with
    | zero => exact absurd (UInt8.toNat_inj.mp hcount) hzero
    | succ count =>
      rw [readAckRanges, if_pos hleft]
      exact ite_self none

theorem flowAck_body {entries : List AckEntry} (hfits : ∀ entry ∈ entries, Fits entry) (htag : tag.length = wireTagSize) :
    flowAck (ackBody entries ++ tag) = entries ↔ (tag.drop 3).headD 0 ≠ 0 := by
  have hread : ∀ entry ∈ entries, ∀ rest,
      readAckEntry (encodeAckEntry entry ++ rest) = some (entry, rest) :=
    fun entry hmem rest => readAckEntry_encode (hfits entry hmem) rest
  obtain ⟨more, hmore⟩ := Nat.exists_eq_add_of_le (length_le_ackBody entries)
  have hfuel : (ackBody entries ++ tag).length = entries.length + (more + 15 + 1) := by
    rw [List.length_append, hmore, htag, wireTagSize]
    omega
  have happlied : flowAck (ackBody entries ++ tag) =
      entries ++ readAll readAckEntry (more + 15 + 1) tag := by
    rw [flowAck, hfuel]
    exact readAll_flatMap readAckEntry hread _ tag
  have hlast := readAckEntry_tag htag
  rw [happlied]
  split_ifs at hlast with hzero
  · obtain ⟨entry, hentry⟩ := hlast
    rw [readAll_some readAckEntry hentry, List.append_right_eq_self]
    constructor
    · intro hnil
      cases hnil
    · exact fun hne => absurd hzero hne
  · rw [readAll_none readAckEntry hlast, List.append_nil]
    exact ⟨fun _ => hzero, fun _ => rfl⟩

/-! ## Through the seal -/

def controlOverhead : ℕ :=
  wireSecureHeadSize + wirePeerTagSize + wireSecureChannelSize + wireTagSize

section
variable (suite : CipherSuite) (m : PeerSendMaterials) (channel : UInt8) (payload : List UInt8)

theorem sendSecureControl_eq :
    sendSecureControl suite m channel payload =
      if payload.length + controlOverhead ≤ writerRoom then
        some (sealSecurePacket suite ctrlTagged (channel :: payload) m)
      else none := by
  have hwriter : secureControlWriter channel payload = PacketSlotWriter.putBytes
      ⟨ctrlTagged :: (List.replicate 12 0 ++ [channel]), writerRoom - controlOverhead⟩ payload := rfl
  have hroom : payload.length ≤ writerRoom - controlOverhead ↔
      payload.length + controlOverhead ≤ writerRoom :=
    Nat.le_sub_iff_add_le (by decide)
  rw [sendSecureControl, hwriter, PacketSlotWriter.putBytes]
  simp only [hroom]
  split_ifs
  · rfl
  · rfl

theorem sealControl_length :
    (sealSecurePacket suite ctrlTagged (channel :: payload) m).length =
      payload.length + controlOverhead := by
  have htagged : (tagField ctrlTagged m.tag).length = wirePeerTagSize := m.tag.size
  rw [sealSecurePacket_length, htagged, List.length_cons, controlOverhead, wireSecureChannelSize]
  omega

end

theorem control_offsets (body : List UInt8) :
    Datagram.headSize (ctrlTagged :: body) = wireSecureHeadSize + 4 ∧
      Datagram.contentOffset (ctrlTagged :: body) = wireSecureHeadSize + 5 ∧
      Datagram.isSecure (ctrlTagged :: body) = true := by
  have hunsecure : hasBit ctrlTagged ctrlUnsecure = false := rfl
  have htagged : hasBit ctrlTagged ctrlTagged = true := rfl
  have hflow : hasBit ctrlTagged ctrlHasFlow = false := rfl
  simp [Datagram.headSize, Datagram.contentOffset, Datagram.isSecure, Datagram.isTagged,
    Datagram.hasFlow, Datagram.isValid, Datagram.controller, hunsecure, htagged, hflow,
    wireSecureHeadSize, wireNonceSize, wirePeerTagSize, wireSecureChannelSize]

/-- The dispatcher of an opened control packet: the channel byte, and as payload all that
follows it, the tag included. -/
theorem processSecureControl_opened {nonce : List UInt8} (hnonce : nonce.length = wireNonceSize)
    (htag : tag.length = wirePeerTagSize) (channel : UInt8) (content : List UInt8) :
    processSecureControl (ctrlTagged :: (nonce ++ (tag ++ (channel :: content)))) =
      some (channel, content.take maxWirePacketSize) := by
  obtain ⟨hhead, hoffset, hsecure⟩ := control_offsets (nonce ++ (tag ++ (channel :: content)))
  have hchannel : (ctrlTagged :: (nonce ++ (tag ++ (channel :: content)))).drop
      (wireSecureHeadSize + 4) = channel :: content := by
    rw [layout_body ctrlTagged hnonce]
    exact List.drop_left' htag
  have hcontent : (ctrlTagged :: (nonce ++ (tag ++ (channel :: content)))).drop
      (wireSecureHeadSize + 5) = content := by
    rw [show wireSecureHeadSize + 5 = wireSecureHeadSize + 4 + 1 from rfl, ← List.drop_drop,
      hchannel, List.drop_one, List.tail_cons]
  have hlength : (ctrlTagged :: (nonce ++ (tag ++ (channel :: content)))).length =
      wireSecureHeadSize + 5 + content.length := by
    simp only [List.length_cons, List.length_append, hnonce, htag, wireNonceSize, wirePeerTagSize,
      wireSecureHeadSize]
    omega
  have hfirst : Datagram.secureChannel (ctrlTagged :: (nonce ++ (tag ++ (channel :: content)))) =
      channel := by
    have hroom : wireSecureHeadSize + 4 + 1 ≤ wireSecureHeadSize + 5 + content.length := by omega
    rw [Datagram.secureChannel, hsecure, hhead, hchannel, hlength, wireSecureChannelSize,
      if_pos hroom]
    rfl
  rw [processSecureControl, hoffset, hlength, hcontent, hfirst]
  exact if_neg (by omega)

theorem receiveFlowAck_sealed (suite : CipherSuite) (m : PeerSendMaterials)
    (hcounter : m.counter < 2 ^ 64) {payload : List UInt8}
    (hsize : payload.length + controlOverhead ≤ maxWirePacketSize) :
    receiveFlowAck suite m.key m.headerKey m.lane
        (sealSecurePacket suite ctrlTagged (secureChannelFlowAck :: payload) m) =
      some (flowAck (payload ++
        sealTag suite ctrlTagged (secureChannelFlowAck :: payload) m)) := by
  have hcontent : (payload ++
      sealTag suite ctrlTagged (secureChannelFlowAck :: payload) m).length ≤ maxWirePacketSize := by
    rw [List.length_append, sealTag, suite.tag_length]
    rw [controlOverhead] at hsize
    omega
  have hdispatch := processSecureControl_opened
    (masked_length suite m.counter m.headerKey
      (sealTag suite ctrlTagged (secureChannelFlowAck :: payload) m))
    m.tag.size secureChannelFlowAck
    (payload ++ sealTag suite ctrlTagged (secureChannelFlowAck :: payload) m)
  rw [List.take_of_length_le hcontent] at hdispatch
  have hfield : tagField ctrlTagged m.tag = m.tag.bytes := rfl
  rw [receiveFlowAck, openSecurePacket_seal_eq suite ctrlTagged _ m hcounter, hfield]
  simp only [List.cons_append, hdispatch, if_true]

theorem flushPeerAcks_some {suite : CipherSuite} {m : PeerSendMaterials} {d : Datagram} (h : (flushPeerAcks suite m now flows).2 = some d) :
    d = sealSecurePacket suite ctrlTagged (secureChannelFlowAck ::
      ackBody (buildPeerAckBody now maxWirePacketSize 0 flows).2) m := by
  rw [flushPeerAcks] at h
  split_ifs at h
  rw [sendSecureControl_eq] at h
  split_ifs at h
  exact (Option.some.inj h).symm

/-- The entries the far end applies are those the flush wrote exactly when the fourth byte
of the packet's tag is not zero: a zero reads as one more entry without ranges. -/
theorem flow_ack_round_trip_iff (suite : CipherSuite) (m : PeerSendMaterials)
    (hcounter : m.counter < 2 ^ 64) (now : ℕ) (flows : List InAssociation)
    (hstored : ∀ flow ∈ flows, Stored flow) (d : Datagram)
    (hsent : (flushPeerAcks suite m now flows).2 = some d) (hkernel : kernelAccepts d) :
    receiveFlowAck suite m.key m.headerKey m.lane d =
        some (buildPeerAckBody now maxWirePacketSize 0 flows).2 ↔
      ((authTag d).drop 3).headD 0 ≠ 0 := by
  have hfits := buildPeerAckBody_fits hstored now maxWirePacketSize 0
  have hd := flushPeerAcks_some hsent
  generalize (buildPeerAckBody now maxWirePacketSize 0 flows).2 = entries at hfits hd ⊢
  subst hd
  have hsize : (ackBody entries).length + controlOverhead ≤ maxWirePacketSize := by
    rw [← sealControl_length suite m secureChannelFlowAck]
    exact hkernel
  rw [receiveFlowAck_sealed suite m hcounter hsize, authTag, sealSecurePacket_trailer,
    Option.some.injEq]
  exact flowAck_body hfits (suite.tag_length _ _ _ _)

def owingFlow : InAssociation :=
  { InAssociation.raw with
    flowId := 7, life := .opened, recvNext := 5, recvHighest := 4, newSinceFlush := 4,
    windowBits := 256, seen := fun i => decide (1 ≤ i ∧ i ≤ 4) }

def materialsAt (counter : ℕ) : PeerSendMaterials :=
  { key := [], headerKey := [], macKey := [], counter, lane := 0, tag := zeroTag }

def owingFlow_entry : AckEntry := ⟨7, 0, 5, 0, [⟨1, 4⟩]⟩

def owingFlow_datagram (counter : ℕ) : Datagram :=
  sealSecurePacket .transparent ctrlTagged (secureChannelFlowAck :: ackBody [owingFlow_entry])
    (materialsAt counter)

theorem flow_ack_round_trip_owing :
    receiveFlowAck .transparent [] [] 0 (owingFlow_datagram (2 ^ 24)) =
      some (buildPeerAckBody 0 maxWirePacketSize 0 [owingFlow]).2 :=
  (flow_ack_round_trip_iff .transparent (materialsAt (2 ^ 24)) (by decide) 0 [owingFlow]
    (by
      intro flow hflow
      rw [List.mem_singleton] at hflow
      subst hflow
      exact ⟨by decide, by decide, by decide, by decide⟩)
    (owingFlow_datagram (2 ^ 24)) (by decide +kernel) (by decide +kernel)).mpr (by decide +kernel)

/-- Under the first counter the tag's fourth byte is zero, and the far end applies an
acknowledgement of flow 1 that nobody wrote. -/
theorem flow_ack_invents_entry :
    (flushPeerAcks .transparent (materialsAt 1) 0 [owingFlow]).2 = some (owingFlow_datagram 1) ∧
      kernelAccepts (owingFlow_datagram 1) ∧
      (buildPeerAckBody 0 maxWirePacketSize 0 [owingFlow]).2 = [owingFlow_entry] ∧
      receiveFlowAck .transparent [] [] 0 (owingFlow_datagram 1) =
        some [owingFlow_entry, ⟨1, 0, 0, 0, []⟩] := by
  decide +kernel

/-! ## Room for the body -/

/-- Bytes packed of entries of these sizes, in order, into `cap` bytes of which `used` are
taken: one that does not fit is passed over, and packing stops when no entry with a range
fits any more. -/
def packed (cap : ℕ) : ℕ → List ℕ → ℕ
  | used, [] => used
  | used, size :: sizes =>
    let used := if used + size ≤ cap then used + size else used
    if cap < used + wireAckEntryHeadSize + 8 then used else packed cap used sizes

theorem taken_size (flow : InAssociation) (now cap bodyLen : ℕ) :
    bodyLen + ((flow.takeAckEntry now (cap - bodyLen)).2.map ackEntrySize).getD 0 =
      if bodyLen + owedSize flow ≤ cap then bodyLen + owedSize flow else bodyLen := by
  rcases takeAckEntry_cases flow now (cap - bodyLen) with
    ⟨hnone, -, hsize⟩ | ⟨ackDelay, -, hsome, -, -, hsize, hroom⟩
  · rw [hnone]
    simp only [Option.map_none, Option.getD_none]
    split_ifs
    · omega
    · rfl
  · have hfits : bodyLen + owedSize flow ≤ cap := by
      rw [wireAckEntryHeadSize] at hsize
      omega
    rw [hsome, if_pos hfits, hsize]
    rfl

theorem ackBody_append (front back : List AckEntry) :
    ackBody (front ++ back) = ackBody front ++ ackBody back := by
  simp [ackBody]

theorem ackBody_toList_length (entry : Option AckEntry) :
    (ackBody entry.toList).length = (entry.map ackEntrySize).getD 0 := by
  cases entry with
  | none => rfl
  | some entry => simp [ackBody]

theorem buildPeerAckBody_length (now cap bodyLen : ℕ) (flows : List InAssociation) :
    bodyLen + (ackBody (buildPeerAckBody now cap bodyLen flows).2).length =
      packed cap bodyLen (flows.map owedSize) := by
  induction flows generalizing bodyLen with
  | nil => simp [buildPeerAckBody, ackBody, packed]
  | cons flow flows ih =>
    have hsize := taken_size flow now cap bodyLen
    rw [buildPeerAckBody, List.map_cons, packed]
    rw [← hsize]
    split_ifs
    · rw [ackBody_toList_length]
    · rw [ackBody_append, List.length_append, ackBody_toList_length, ← Nat.add_assoc, ih]

/-- What the flush promises to an association whose owed counter it cleared: its entry is
in a datagram the kernel does not refuse for its size. -/
def AcksCarried (suite : CipherSuite) (m : PeerSendMaterials) (now : ℕ)
    (flows : List InAssociation) : Prop :=
  ∀ (i : ℕ) (flow after : InAssociation), flows[i]? = some flow →
    (flushPeerAcks suite m now flows).1[i]? = some after →
    0 < flow.newSinceFlush → after.newSinceFlush = 0 →
    ∃ entry ∈ (buildPeerAckBody now maxWirePacketSize 0 flows).2,
      entry.flowId = flow.flowId ∧ entry.recvNext = flow.recvNext ∧
        entry.ranges = flow.buildAckRanges flowAckRangeCount ∧
        ∃ d, (flushPeerAcks suite m now flows).2 = some d ∧ kernelAccepts d ∧
          d = sealSecurePacket suite ctrlTagged (secureChannelFlowAck ::
            ackBody (buildPeerAckBody now maxWirePacketSize 0 flows).2) m

theorem buildPeerAckBody_cleared (now cap bodyLen : ℕ) (flows : List InAssociation) (i : ℕ)
    (flow after : InAssociation) (hflow : flows[i]? = some flow)
    (hafter : (buildPeerAckBody now cap bodyLen flows).1[i]? = some after)
    (howed : 0 < flow.newSinceFlush) (hcleared : after.newSinceFlush = 0) :
    ∃ entry ∈ (buildPeerAckBody now cap bodyLen flows).2,
      entry.flowId = flow.flowId ∧ entry.recvNext = flow.recvNext ∧
        entry.ranges = flow.buildAckRanges flowAckRangeCount := by
  induction flows generalizing bodyLen i with
  | nil => simp at hflow
  | cons head flows ih =>
    rw [buildPeerAckBody] at hafter ⊢
    cases i with
    | zero =>
      cases hflow
      have hhead : after = (flow.takeAckEntry now (cap - bodyLen)).1 := by
        split_ifs at hafter
        · exact (Option.some.inj hafter).symm
        · exact (Option.some.inj hafter).symm
      subst hhead
      rcases takeAckEntry_cases flow now (cap - bodyLen) with
        ⟨-, hkept, -⟩ | ⟨ackDelay, -, hsome, -⟩
      · omega
      · refine ⟨⟨flow.flowId, flow.flowEpoch, flow.recvNext, ackDelay,
          flow.buildAckRanges flowAckRangeCount⟩, ?_, rfl, rfl, rfl⟩
        rw [hsome]
        split_ifs
        · exact List.mem_singleton_self _
        · exact List.mem_cons_self
    | succ i =>
      split_ifs at hafter ⊢ with hfull
      · -- packing has stopped, so this association was not touched
        rw [List.getElem?_cons_succ] at hflow hafter
        rw [hflow] at hafter
        cases hafter
        omega
      · obtain ⟨entry, hmem, hfields⟩ := ih _ i hflow hafter
        exact ⟨entry, List.mem_append_right _ hmem, hfields⟩

theorem buildPeerAckBody_wrote (now cap bodyLen : ℕ) (flows : List InAssociation)
    (hwrote : (buildPeerAckBody now cap bodyLen flows).2 ≠ []) :
    ∃ (i : ℕ) (flow after : InAssociation), flows[i]? = some flow ∧
      (buildPeerAckBody now cap bodyLen flows).1[i]? = some after ∧
      0 < flow.newSinceFlush ∧ after.newSinceFlush = 0 := by
  induction flows generalizing bodyLen with
  | nil => exact absurd rfl hwrote
  | cons head flows ih =>
    rw [buildPeerAckBody] at hwrote ⊢
    rcases takeAckEntry_cases head now (cap - bodyLen) with
      ⟨hnone, -⟩ | ⟨ackDelay, -, -, howed, hcleared, -⟩
    · rw [hnone] at hwrote ⊢
      split_ifs at hwrote ⊢
      · exact absurd rfl hwrote
      · obtain ⟨i, flow, after, hfields⟩ := ih _ hwrote
        exact ⟨i + 1, flow, after, hfields⟩
    · refine ⟨0, head, (head.takeAckEntry now (cap - bodyLen)).1, rfl, ?_, howed, hcleared⟩
      split_ifs
      · rfl
      · rfl

section
variable (suite : CipherSuite) (m : PeerSendMaterials) (now : ℕ) (flows : List InAssociation)

theorem flushPeerAcks_flows :
    (flushPeerAcks suite m now flows).1 = (buildPeerAckBody now maxWirePacketSize 0 flows).1 := by
  rw [flushPeerAcks]
  split_ifs
  · rfl
  · rfl

theorem flushPeerAcks_sends
    (hsome : (ackBody (buildPeerAckBody now maxWirePacketSize 0 flows).2).length ≠ 0)
    (hroom : (ackBody (buildPeerAckBody now maxWirePacketSize 0 flows).2).length +
      controlOverhead ≤ maxWirePacketSize) :
    ∃ d, (flushPeerAcks suite m now flows).2 = some d ∧ kernelAccepts d := by
  have hwriter : maxWirePacketSize ≤ writerRoom := by decide
  rw [flushPeerAcks, if_neg hsome, sendSecureControl_eq, if_pos (Nat.le_trans hroom hwriter)]
  refine ⟨_, rfl, ?_⟩
  rw [kernelAccepts, sealControl_length]
  exact hroom

end

theorem acksCarried_of_room {suite : CipherSuite} {m : PeerSendMaterials}
    (hroom : packed maxWirePacketSize 0 (flows.map owedSize) + controlOverhead ≤
      maxWirePacketSize) : AcksCarried suite m now flows := by
  intro i flow after hflow hafter howed hcleared
  rw [← buildPeerAckBody_length now, Nat.zero_add] at hroom
  rw [flushPeerAcks_flows] at hafter
  obtain ⟨entry, hmem, hid, hnext, hranges⟩ := buildPeerAckBody_cleared now maxWirePacketSize 0
    flows i flow after hflow hafter howed hcleared
  have hsome := length_le_ackBody (buildPeerAckBody now maxWirePacketSize 0 flows).2
  have hone := List.length_pos_of_mem hmem
  obtain ⟨d, hsent, hkernel⟩ := flushPeerAcks_sends suite m now flows (by omega) hroom
  exact ⟨entry, hmem, hid, hnext, hranges, d, hsent, hkernel, flushPeerAcks_some hsent⟩

/-- Every acknowledgement a flush clears leaves in a packet the kernel takes exactly when
what it packs leaves room for the header, the channel byte and the tag. -/
theorem acks_carried_iff (suite : CipherSuite) (m : PeerSendMaterials) (now : ℕ)
    (flows : List InAssociation) :
    AcksCarried suite m now flows ↔
      packed maxWirePacketSize 0 (flows.map owedSize) + controlOverhead ≤ maxWirePacketSize := by
  constructor
  · intro hcarried
    have hlength := buildPeerAckBody_length now maxWirePacketSize 0 flows
    rw [Nat.zero_add] at hlength
    rw [← hlength]
    by_contra hlong
    have hwrote : (buildPeerAckBody now maxWirePacketSize 0 flows).2 ≠ [] := by
      intro hnil
      rw [hnil] at hlong
      exact hlong (by decide)
    obtain ⟨i, flow, after, hflow, hafter, howed, hcleared⟩ :=
      buildPeerAckBody_wrote now maxWirePacketSize 0 flows hwrote
    rw [← flushPeerAcks_flows suite m now flows] at hafter
    obtain ⟨entry, -, -, -, -, d, -, hkernel, hd⟩ :=
      hcarried i flow after hflow hafter howed hcleared
    rw [hd, kernelAccepts, sealControl_length] at hkernel
    exact hlong hkernel
  · exact acksCarried_of_room

/-- Every other packet of a window arrived, so that the entry carries all sixteen ranges. -/
def gappedFlow : InAssociation :=
  { owingFlow with recvHighest := 32, newSinceFlush := 16, seen := fun i => decide (i % 2 = 0) }

/-- Eight such associations and one with ten ranges owe 1194 bytes: the flush clears all
nine and hands nothing to the kernel. -/
theorem flush_clears_without_sending :
    let flows := List.replicate 8 gappedFlow ++ [{ gappedFlow with recvHighest := 20 }]
    flows.all (fun flow => decide (0 < flow.newSinceFlush)) = true ∧
      (flushPeerAcks .transparent (materialsAt 1) 0 flows).1.all
        (fun flow => decide (flow.newSinceFlush = 0)) = true ∧
      (flushPeerAcks .transparent (materialsAt 1) 0 flows).2 = none := by
  decide +kernel

end BcpFlux.Socket
