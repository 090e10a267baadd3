import BcpFlux.Socket.Authentic
import BcpFlux.Socket.SendCustody
import BcpFlux.Socket.Reflection

/-! # Who seals a packet and who opens it

The controller byte says whether a packet is encrypted or only authenticated, and every
origin of a datagram picks its seal on its own, as the two places where one arrives pick
their open.  The drain of an unreliable flow's waiting ring and the migration path do not
look at the bit.
-/

namespace BcpFlux.Socket
open Library Wire BcpFlux.Flow Crypto

/-- Where a sealed datagram comes from. -/
inductive SealOrigin where
  /-- `PreProcessOut` on a packet of the application. -/
  | direct
  /-- `PreProcessOut` on a batch. -/
  | batchFlush
  /-- `ResendStaging`. -/
  | retransmit
  /-- One turn of `DrainWaitingSends` on a flow of this mode. -/
  | waitingDrain (mode : FlowMode)
  /-- `SendSecureControl`. -/
  | control
deriving DecidableEq, Repr

/-- `SealStagingToWire`, as far as the bytes go. -/
def sealStagingToWire (suite : CipherSuite) (d : Datagram) (m : PeerSendMaterials) : Datagram :=
  sealAs suite (sealKindOf d) d.controller (d.drop (secureHeaderSize d)) m

/-- The bytes of `PreProcessOut`, sealed in place or into a wire slot alike. -/
def sealForSend (suite : CipherSuite) (d : Datagram) (m : PeerSendMaterials) : Datagram :=
  sealAs suite (sealKindOf d) d.controller (d.drop (secureHeaderSize d)) m

/-- The datagram an origin makes of a plaintext packet. -/
def SealOrigin.sealed (suite : CipherSuite) (d : Datagram) (m : PeerSendMaterials) :
    SealOrigin → Datagram
  | .direct | .batchFlush => sealForSend suite d m
  | .retransmit => sealStagingToWire suite d m
  | .waitingDrain mode =>
    if mode = .unreliable then
      sealAs suite .encrypted d.controller (d.drop (secureHeaderSize d)) m
    else sealStagingToWire suite d m
  | .control => sealAs suite .encrypted d.controller (d.drop (secureHeaderSize d)) m

/-- A plaintext packet an origin may seal: secure framing with its header complete, and no
level but the default for control traffic. -/
structure SealOrigin.Packet (origin : SealOrigin) (d : Datagram) : Prop where
  secure : d.isSecure = true
  header : secureHeaderSize d ≤ d.length
  control : origin = .control → d.controller = ctrlTagged

section Receiver
variable {Mac : Type} (s : RecvSocket Mac) (suite : RecvSuite Mac)

/-- The open `PreProcessIn` runs for a secure datagram, by the address it came from. -/
def RecvSocket.openFrom (src : Address) (d : Datagram) (c : RecvChoices) : Option (ℕ × Datagram) :=
  match s.slotOf src with
  | some i => openPacket suite.cipher s.publicKey
      ((s.peer i).session suite.cipher s.publicKey) d
  | none =>
    if s.migration && d.isTagged && decide (s.migrateBudget ≠ 0) then
      (s.openCandidate suite d (c.candidates.take tagCandidates)).map Prod.snd
    else none

/-- The materials are those of the session the receiver holds in slot `i`. -/
structure Paired (i : ℕ) (m : PeerSendMaterials) : Prop where
  established : ((s.peer i).session suite.cipher s.publicKey).established = true
  key_eq : m.key = ((s.peer i).session suite.cipher s.publicKey).session
  headerKey_eq : m.headerKey = ((s.peer i).session suite.cipher s.publicKey).headerKey
  macKey_eq : m.macKey = ((s.peer i).session suite.cipher s.publicKey).macKey
  lane_eq : m.lane =
    laneFrom s.publicKey ((s.peer i).session suite.cipher s.publicKey).theirPk
  counter_lt : m.counter < 2 ^ 64

/-- An address the sender's datagram may arrive from: the one its peer entry is bound to, or
an unknown one while the tag index names the entry, among at most four candidates of which
no other opens the datagram. -/
def Arrives (src : Address) (i : ℕ) (d : Datagram) (c : RecvChoices) : Prop :=
  s.slotOf src = some i ∨
    (s.slotOf src = none ∧ s.migration = true ∧ s.migrateBudget ≠ 0 ∧ d.isTagged = true ∧
      i ∈ c.candidates ∧ c.candidates.length ≤ tagCandidates ∧
      ∀ j ∈ c.candidates, j ≠ i →
        openSecurePacket suite.cipher d ((s.peer j).session suite.cipher s.publicKey).session
          ((s.peer j).session suite.cipher s.publicKey).headerKey
          (laneFrom s.publicKey ((s.peer j).session suite.cipher s.publicKey).theirPk) = none)

end Receiver

/-- The opened packet is the sealed one: controller and body. -/
def Recovers (d opened : Datagram) : Prop :=
  opened.controller = d.controller ∧
    (opened.drop (secureHeaderSize opened)).take
      (opened.length - secureHeaderSize opened - wireTagSize) = d.drop (secureHeaderSize d)

/-! ## Seals and opens -/

/-- The seal an origin puts on a packet. -/
def SealOrigin.kind (origin : SealOrigin) (d : Datagram) : SealKind :=
  if origin = .waitingDrain .unreliable then .encrypted else sealKindOf d

theorem SealOrigin.sealed_eq (suite : CipherSuite) (d : Datagram) (m : PeerSendMaterials)
    (origin : SealOrigin) (hpacket : origin.Packet d) :
    origin.sealed suite d m =
      sealAs suite (origin.kind d) d.controller (d.drop (secureHeaderSize d)) m := by
  cases origin with
  | direct => rfl
  | batchFlush => rfl
  | retransmit => rfl
  | waitingDrain mode =>
    rw [SealOrigin.sealed, SealOrigin.kind]
    by_cases hmode : mode = .unreliable
    · rw [if_pos hmode, hmode, if_pos rfl]
    · rw [if_neg hmode, if_neg (by simpa using hmode)]
      rfl
  | control =>
    have hcontroller := hpacket.control rfl
    have hkind : sealKindOf d = .encrypted := by
      have hbit : hasBit ctrlTagged ctrlMacOnly = false := rfl
      simp [sealKindOf, Datagram.isMacOnly, hcontroller, hbit]
    rw [SealOrigin.kind, if_neg (by simp), hkind]
    rfl

section Seals
variable (suite : CipherSuite) {controller : UInt8} (body : List UInt8) (m : PeerSendMaterials)

theorem sealAs_cons (kind : SealKind) :
    ∃ rest, sealAs suite kind controller body m = controller :: rest := by
  cases kind with
  | encrypted => exact ⟨_, rfl⟩
  | macOnly => exact ⟨_, rfl⟩

theorem sealAs_isMacOnly (hsecure : hasBit controller ctrlUnsecure = false) (kind : SealKind) :
    (sealAs suite kind controller body m).isMacOnly = hasBit controller ctrlMacOnly := by
  obtain ⟨rest, hrest⟩ : ∃ rest, sealAs suite kind controller body m = controller :: rest :=
    sealAs_cons suite body m kind
  rw [hrest]
  simp [Datagram.isMacOnly, Datagram.isSecure, Datagram.isValid, Datagram.controller, hsecure]

theorem openSecurePacket_macOnly {suite : CipherSuite} (hsafe : Unforgeable suite)
    (key headerKey : Key) (lane : UInt8) :
    openSecurePacket suite (sealMacOnlyPacket suite controller body m) key headerKey lane =
      none := by
  simp only [sealMacOnlyPacket]
  rw [openSecurePacket_layout suite controller (masked_length suite _ _ _) (suite.mac_length _ _),
    Option.map_eq_none_iff, Option.eq_none_iff_forall_ne_some]
  intro plain hopen
  have hsame := (suite.decrypt_iff _ _ _ _ _ plain).mp hopen
  exact hsafe.mac _ _ _ _ _ _ (congrArg Prod.snd hsame).symm

end Seals

theorem recovers_layout {d : Datagram} (tag : PeerTag) {nonce trailer : List UInt8}
    (hnonce : nonce.length = wireNonceSize) (htrailer : trailer.length = wireTagSize) :
    Recovers d (d.controller :: (nonce ++ (tagField d.controller tag ++
      (d.drop (secureHeaderSize d) ++ trailer)))) := by
  refine ⟨rfl, ?_⟩
  rw [tagField_length d.controller tag]
  exact layout_cipher d.controller tag hnonce htrailer

section Opens
variable {Mac : Type} {s : RecvSocket Mac} {suite : RecvSuite Mac} {i : ℕ} {m : PeerSendMaterials}
  {d : Datagram}

theorem Paired.openSecurePacket (h : Paired s suite i m) (d : Datagram) :
    ∃ opened, Crypto.openSecurePacket suite.cipher
        (sealAs suite.cipher .encrypted d.controller (d.drop (secureHeaderSize d)) m)
        ((s.peer i).session suite.cipher s.publicKey).session
        ((s.peer i).session suite.cipher s.publicKey).headerKey
        (laneFrom s.publicKey ((s.peer i).session suite.cipher s.publicKey).theirPk) =
      some (m.counter, opened) ∧ Recovers d opened := by
  rw [← h.key_eq, ← h.headerKey_eq, ← h.lane_eq]
  refine ⟨_, openSecurePacket_seal_eq suite.cipher _ _ m h.counter_lt, ?_⟩
  exact recovers_layout m.tag (masked_length _ _ _ _) (suite.cipher.tag_length _ _ _ _)

theorem Paired.openMacOnlyPacket (h : Paired s suite i m) (d : Datagram) :
    ∃ opened, Crypto.openMacOnlyPacket suite.cipher
        (sealAs suite.cipher .macOnly d.controller (d.drop (secureHeaderSize d)) m)
        ((s.peer i).session suite.cipher s.publicKey).macKey
        ((s.peer i).session suite.cipher s.publicKey).headerKey =
      some (m.counter, opened) ∧ Recovers d opened := by
  rw [← h.macKey_eq, ← h.headerKey_eq]
  refine ⟨_, openMacOnlyPacket_seal_eq suite.cipher _ _ m h.counter_lt, ?_⟩
  rw [List.append_assoc]
  exact recovers_layout m.tag (by simp [stampNonceCounter]) (suite.cipher.mac_length _ _)

theorem openCandidate_of_mem {wire : Datagram} {r : ℕ × Datagram} {is : List ℕ}
    (hest : ((s.peer i).session suite.cipher s.publicKey).established = true)
    (hopen : Crypto.openSecurePacket suite.cipher wire
      ((s.peer i).session suite.cipher s.publicKey).session
      ((s.peer i).session suite.cipher s.publicKey).headerKey
      (laneFrom s.publicKey ((s.peer i).session suite.cipher s.publicKey).theirPk) = some r)
    (hmem : i ∈ is)
    (hothers : ∀ j ∈ is, j ≠ i → Crypto.openSecurePacket suite.cipher wire
      ((s.peer j).session suite.cipher s.publicKey).session
      ((s.peer j).session suite.cipher s.publicKey).headerKey
      (laneFrom s.publicKey ((s.peer j).session suite.cipher s.publicKey).theirPk) = none) :
    s.openCandidate suite wire is = some (i, r) := by
  induction is with
  | nil => cases hmem
  | cons j is ih =>
    by_cases hji : j = i
    · subst hji
      simp [RecvSocket.openCandidate, hest, hopen]
    · have hfail := hothers j List.mem_cons_self hji
      have hrest := ih ((List.mem_cons.mp hmem).resolve_left (Ne.symm hji))
        fun k hk => hothers k (List.mem_cons_of_mem j hk)
      simp only [RecvSocket.openCandidate, hfail, hrest, ite_self]

theorem openCandidate_eq_none {wire : Datagram} {is : List ℕ}
    (hall : ∀ key headerKey lane,
      Crypto.openSecurePacket suite.cipher wire key headerKey lane = none) :
    s.openCandidate suite wire is = none := by
  induction is with
  | nil => rfl
  | cons j is ih => simp only [RecvSocket.openCandidate, hall, ih, ite_self]

/-- What a paired receiver makes of a datagram. -/
def OpensTo (d : Datagram) (m : PeerSendMaterials) (r : Option (ℕ × Datagram)) : Prop :=
  ∃ opened, r = some (m.counter, opened) ∧ Recovers d opened

theorem not_opensTo_none : ¬ OpensTo d m none := by
  rintro ⟨opened, hnone, -⟩
  cases hnone

section Bound
variable (hsecure : d.isSecure = true)
include hsecure

theorem openPacket_sealAs_eq (kind : SealKind) :
    openPacket suite.cipher s.publicKey ((s.peer i).session suite.cipher s.publicKey)
        (sealAs suite.cipher kind d.controller (d.drop (secureHeaderSize d)) m) =
      match sealKindOf d with
      | .macOnly => Crypto.openMacOnlyPacket suite.cipher
          (sealAs suite.cipher kind d.controller (d.drop (secureHeaderSize d)) m)
          ((s.peer i).session suite.cipher s.publicKey).macKey
          ((s.peer i).session suite.cipher s.publicKey).headerKey
      | .encrypted => Crypto.openSecurePacket suite.cipher
          (sealAs suite.cipher kind d.controller (d.drop (secureHeaderSize d)) m)
          ((s.peer i).session suite.cipher s.publicKey).session
          ((s.peer i).session suite.cipher s.publicKey).headerKey
          (laneFrom s.publicKey ((s.peer i).session suite.cipher s.publicKey).theirPk) := by
  have hbit : hasBit d.controller ctrlUnsecure = false := by
    simp only [Datagram.isSecure, Bool.and_eq_true, Bool.not_eq_true'] at hsecure
    exact hsecure.2
  have hmac : d.isMacOnly = hasBit d.controller ctrlMacOnly := by
    rw [Datagram.isMacOnly, hsecure, Bool.true_and]
  rw [openPacket, sealAs_isMacOnly suite.cipher _ m hbit kind, ← hmac, sealKindOf]
  cases d.isMacOnly with
  | false => rfl
  | true => rfl

theorem openPacket_sealAs (h : Paired s suite i m) :
    OpensTo d m (openPacket suite.cipher s.publicKey
      ((s.peer i).session suite.cipher s.publicKey)
      (sealAs suite.cipher (sealKindOf d) d.controller (d.drop (secureHeaderSize d)) m)) := by
  rw [openPacket_sealAs_eq hsecure]
  cases sealKindOf d with
  | encrypted => exact h.openSecurePacket d
  | macOnly => exact h.openMacOnlyPacket d

theorem kind_of_openPacket (hsafe : Unforgeable suite.cipher) {kind : SealKind}
    (hopens : OpensTo d m (openPacket suite.cipher s.publicKey
      ((s.peer i).session suite.cipher s.publicKey)
      (sealAs suite.cipher kind d.controller (d.drop (secureHeaderSize d)) m))) :
    kind = sealKindOf d := by
  rw [openPacket_sealAs_eq hsecure] at hopens
  cases hkind : sealKindOf d with
  | encrypted =>
    rw [hkind] at hopens
    cases kind with
    | encrypted => rfl
    | macOnly =>
      rw [sealAs, openSecurePacket_macOnly _ m hsafe] at hopens
      exact absurd hopens not_opensTo_none
  | macOnly =>
    rw [hkind] at hopens
    cases kind with
    | encrypted =>
      rw [sealAs, openMacOnlyPacket_encrypted hsafe] at hopens
      exact absurd hopens not_opensTo_none
    | macOnly => rfl

end Bound

/-- From a new address only the encrypting open is tried, and it finds the sender. -/
theorem openCandidate_sealAs (h : Paired s suite i m) {is : List ℕ} (hmem : i ∈ is)
    (hothers : ∀ j ∈ is, j ≠ i → Crypto.openSecurePacket suite.cipher
      (sealAs suite.cipher .encrypted d.controller (d.drop (secureHeaderSize d)) m)
      ((s.peer j).session suite.cipher s.publicKey).session
      ((s.peer j).session suite.cipher s.publicKey).headerKey
      (laneFrom s.publicKey ((s.peer j).session suite.cipher s.publicKey).theirPk) = none) :
    OpensTo d m ((s.openCandidate suite
      (sealAs suite.cipher .encrypted d.controller (d.drop (secureHeaderSize d)) m) is).map
        Prod.snd) := by
  obtain ⟨opened, hopen, hrecovers⟩ := h.openSecurePacket d
  rw [openCandidate_of_mem h.established hopen hmem hothers]
  exact ⟨opened, rfl, hrecovers⟩

theorem kind_of_openCandidate (hsafe : Unforgeable suite.cipher) {kind : SealKind} {is : List ℕ}
    (hopens : OpensTo d m ((s.openCandidate suite
      (sealAs suite.cipher kind d.controller (d.drop (secureHeaderSize d)) m) is).map
        Prod.snd)) : kind = .encrypted := by
  cases kind with
  | encrypted => rfl
  | macOnly =>
    rw [sealAs, openCandidate_eq_none fun key headerKey lane =>
      openSecurePacket_macOnly _ m hsafe key headerKey lane] at hopens
    exact absurd hopens not_opensTo_none

/-- The packet is encrypted; or it is authenticated only, and it was drained from an unreliable
flow's waiting ring exactly if it arrives from a new address. -/
def KindsAgree (origin : SealOrigin) (d : Datagram) (moved : Bool) : Prop :=
  d.isMacOnly = false ∨ (moved = true ↔ origin = .waitingDrain .unreliable)

theorem kindsAgree_bound (origin : SealOrigin) (d : Datagram) :
    KindsAgree origin d false ↔ origin.kind d = sealKindOf d := by
  rw [KindsAgree, SealOrigin.kind, sealKindOf]
  cases d.isMacOnly with
  | false => simp
  | true =>
    by_cases hdrain : origin = .waitingDrain .unreliable
    · simp [hdrain]
    · simp [hdrain]

theorem kindsAgree_moved (origin : SealOrigin) (d : Datagram) :
    KindsAgree origin d true ↔ origin.kind d = .encrypted := by
  rw [KindsAgree, SealOrigin.kind, sealKindOf]
  cases d.isMacOnly with
  | false => simp
  | true =>
    by_cases hdrain : origin = .waitingDrain .unreliable
    · simp [hdrain]
    · simp [hdrain]

/-- A sealed packet whose kinds agree opens at the peer and gives its plaintext back.  Where no
tag of the cipher is a code of the MAC, no other packet does: what the drain seals is encrypted
whatever its controller says, and from a new address that is the only kind that opens. -/
theorem sealed_opens (origin : SealOrigin) (d : Datagram) (hpacket : origin.Packet d)
    (hpaired : Paired s suite i m) (src : Address) (c : RecvChoices)
    (harrives : Arrives s suite src i (origin.sealed suite.cipher d m) c) :
    (KindsAgree origin d (s.slotOf src).isNone →
      OpensTo d m (s.openFrom suite src (origin.sealed suite.cipher d m) c)) ∧
    (Unforgeable suite.cipher →
      OpensTo d m (s.openFrom suite src (origin.sealed suite.cipher d m) c) →
      KindsAgree origin d (s.slotOf src).isNone) := by
  rw [SealOrigin.sealed_eq suite.cipher d m origin hpacket] at harrives ⊢
  rw [RecvSocket.openFrom]
  rcases harrives with hbound | ⟨hnone, hmigration, hbudget, htagged, hmem, hfour, hothers⟩
  · rw [hbound, Option.isNone_some, kindsAgree_bound]
    constructor
    · intro hkind
      rw [hkind]
      exact openPacket_sealAs hpacket.secure hpaired
    · intro hsafe hopens
      exact kind_of_openPacket hpacket.secure hsafe hopens
  · rw [hnone, Option.isNone_none, kindsAgree_moved]
    rw [if_pos (by simp [hmigration, hbudget, htagged]), List.take_of_length_le hfour]
    constructor
    · intro hkind
      rw [hkind] at hothers ⊢
      exact openCandidate_sealAs hpaired hmem hothers
    · intro hsafe hopens
      exact kind_of_openCandidate hsafe hopens

end Opens

/-! ## A MAC-only packet on its four ways -/

def knownMaterials : PeerSendMaterials where
  key := [9]
  headerKey := List.replicate 32 0
  macKey := List.replicate 32 0
  counter := 1
  lane := 1
  tag := zeroTag

theorem knownMaterials_paired : Paired quietSocket clearRecv 0 knownMaterials :=
  ⟨rfl, rfl, rfl, rfl, rfl, by decide⟩

def macOnlyPacket : Datagram :=
  (ctrlHasFlow ||| ctrlMacOnly ||| ctrlTagged) ::
    (List.replicate 12 0 ++ [secureChannelApp, 5, 0, 1, 0, 0, 0, 2, 42])

theorem macOnlyPacket_packet (origin : SealOrigin) (h : origin ≠ .control) :
    origin.Packet macOnlyPacket :=
  ⟨by decide, by decide, fun hcontrol => absurd hcontrol h⟩

/-- Resent to a peer that knows the address, it opens. -/
theorem sealed_opens_resent :
    OpensTo macOnlyPacket knownMaterials (quietSocket.openFrom clearRecv knownAddress
      (SealOrigin.retransmit.sealed .transparent macOnlyPacket knownMaterials) easyRecv) :=
  (sealed_opens .retransmit macOnlyPacket (macOnlyPacket_packet _ (by decide))
    knownMaterials_paired knownAddress easyRecv (Or.inl rfl)).1
    (Or.inr ⟨fun h => absurd h (by decide), fun h => absurd h (by decide)⟩)

/-- Drained from the waiting ring of an unreliable flow it does not open at its peer, and sent
at once from a new address, whose tag names the sender alone, it does not open either. -/
theorem macOnly_packet_lost :
    Arrives quietSocket clearRecv knownAddress 0
        ((SealOrigin.waitingDrain .unreliable).sealed .transparent macOnlyPacket knownMaterials)
        easyRecv ∧
      quietSocket.openFrom clearRecv knownAddress
        ((SealOrigin.waitingDrain .unreliable).sealed .transparent macOnlyPacket knownMaterials)
        easyRecv = none ∧
      Arrives quietSocket clearRecv newAddress 0
        (SealOrigin.direct.sealed .transparent macOnlyPacket knownMaterials)
        { easyRecv with candidates := [0] } ∧
      quietSocket.openFrom clearRecv newAddress
        (SealOrigin.direct.sealed .transparent macOnlyPacket knownMaterials)
        { easyRecv with candidates := [0] } = none := by
  refine ⟨Or.inl rfl, by decide +kernel, Or.inr ⟨by decide, rfl, by decide, by decide, ?_, by decide, ?_⟩,
    by decide +kernel⟩
  · exact List.mem_singleton_self 0
  · intro j hj hne
    exact absurd (List.mem_singleton.mp hj) hne

end BcpFlux.Socket
