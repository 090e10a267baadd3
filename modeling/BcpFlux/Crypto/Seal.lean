import BcpFlux.Wire.Packet

/-! # Sealing and opening packets

`packet_seal.cpp` over an arbitrary cipher suite.  The suite's laws are those of the
vendored primitives: output lengths, decryption inverts encryption, and decryption
accepts only what encryption produces under the same key, nonce and associated data.
-/

namespace BcpFlux.Crypto
open Library Wire

abbrev Key := List UInt8
abbrev Nonce := List UInt8

/-- The primitives the seal layer is written against. -/
structure CipherSuite where
  encrypt : Key → Nonce → List UInt8 → List UInt8 → List UInt8 × List UInt8
  decrypt : Key → Nonce → List UInt8 → List UInt8 → List UInt8 → Option (List UInt8)
  computeMac : Key → List UInt8 → List UInt8
  deriveSubKey : Key → List UInt8 → Key
  body_length : ∀ key nonce aad plain, (encrypt key nonce aad plain).1.length = plain.length
  tag_length : ∀ key nonce aad plain, (encrypt key nonce aad plain).2.length = wireTagSize
  mac_length : ∀ key bytes, (computeMac key bytes).length = wireTagSize
  subKey_length : ∀ key label, (deriveSubKey key label).length = 32
  decrypt_iff : ∀ key nonce aad cipher tag plain,
    decrypt key nonce aad cipher tag = some plain ↔ encrypt key nonce aad plain = (cipher, tag)

/-- A suite that hides nothing: the tag is the start of the nonce, the code the start of
the message, and the last byte tells them apart.  It keeps every law and evaluates. -/
def CipherSuite.transparent : CipherSuite where
  encrypt := fun _ nonce _ plain => (plain, (nonce ++ List.replicate 15 0).take 15 ++ [1])
  decrypt := fun _ nonce _ cipher tag =>
    if tag = (nonce ++ List.replicate 15 0).take 15 ++ [1] then some cipher else none
  computeMac := fun _ bytes => (bytes ++ List.replicate 15 0).take 15 ++ [0]
  deriveSubKey := fun _ _ => List.replicate 32 0
  body_length := fun _ _ _ _ => rfl
  tag_length := fun _ nonce _ _ => by simp [wireTagSize]
  mac_length := fun _ bytes => by simp [wireTagSize]
  subKey_length := fun _ _ => rfl
  decrypt_iff := by
    intro _ nonce _ cipher tag plain
    simp only [Option.ite_none_right_eq_some, Option.some.injEq, Prod.mk.injEq]
    constructor
    · rintro ⟨rfl, rfl⟩
      exact ⟨rfl, rfl⟩
    · rintro ⟨rfl, rfl⟩
      exact ⟨rfl, rfl⟩

/-- The rotating tag a migrating peer is recognised by. -/
structure PeerTag where
  bytes : List UInt8
  size : bytes.length = wirePeerTagSize

/-- What one send needs from its peer, copied out under the peer's lock. -/
structure PeerSendMaterials where
  key : Key
  headerKey : Key
  macKey : Key
  counter : ℕ
  lane : UInt8
  tag : PeerTag

/-! ## The nonce -/

/-- The wire carries the counter only; the lane byte keeps the two directions apart. -/
def expandNonce (counter : ℕ) (lane : UInt8) : Nonce :=
  leBytes wireNonceSize counter ++ lane :: List.replicate 15 0

def stampNonceCounter (counter : ℕ) : List UInt8 := leBytes wireNonceSize counter

def readNonceCounter (nonceField : List UInt8) : ℕ := ofLeBytes nonceField

theorem expandNonce_inj {c c' : ℕ} {l l' : UInt8} (hc : c < 2 ^ 64) (hc' : c' < 2 ^ 64)
    (h : expandNonce c l = expandNonce c' l') : c = c' ∧ l = l' := by
  have hparts := List.append_inj h (by simp)
  refine ⟨leBytes_inj hc hc' hparts.1, ?_⟩
  exact (List.cons_eq_cons.mp hparts.2).1

theorem expandNonce_lane_ne {l l' : UInt8} (hl : l ≠ l') (c c' : ℕ) :
    expandNonce c l ≠ expandNonce c' l' := by
  intro h
  have hparts := List.append_inj h (by simp)
  exact hl (List.cons_eq_cons.mp hparts.2).1

/-- Masking is its own inverse, so one function serves both directions. -/
def maskNonceCounter (suite : CipherSuite) (nonceField : List UInt8) (headerKey : Key)
    (tag : List UInt8) : List UInt8 :=
  xorBytes nonceField (suite.deriveSubKey headerKey tag)

theorem maskNonceCounter_mask (suite : CipherSuite) (nonceField : List UInt8) (headerKey : Key)
    (tag : List UInt8) (h : nonceField.length = wireNonceSize) :
    maskNonceCounter suite (maskNonceCounter suite nonceField headerKey tag) headerKey tag =
      nonceField := by
  apply xorBytes_cancel
  rw [h, suite.subKey_length]
  decide

/-! ## Sealing -/

/-- A secure header with this controller carries the peer tag. -/
def taggedController (controller : UInt8) : Bool :=
  !hasBit controller ctrlUnsecure && hasBit controller ctrlTagged

def tagField (controller : UInt8) (tag : PeerTag) : List UInt8 :=
  if taggedController controller then tag.bytes else []

/-- The associated data: the controller, and the peer tag of a tagged packet. -/
def buildSecureAad (controller : UInt8) (tag : List UInt8) : List UInt8 := controller :: tag

/-- The whole datagram `SealSecurePacket` leaves behind for a body to encrypt. -/
def sealSecurePacket (suite : CipherSuite) (controller : UInt8) (body : List UInt8)
    (m : PeerSendMaterials) : Datagram :=
  let tag := tagField controller m.tag
  let sealed := suite.encrypt m.key (expandNonce m.counter m.lane)
    (buildSecureAad controller tag) body
  controller :: (maskNonceCounter suite (stampNonceCounter m.counter) m.headerKey sealed.2 ++
    (tag ++ (sealed.1 ++ sealed.2)))

/-- `SealMacOnlyPacket`: everything readable, the code computed over the real counter. -/
def sealMacOnlyPacket (suite : CipherSuite) (controller : UInt8) (body : List UInt8)
    (m : PeerSendMaterials) : Datagram :=
  let tag := tagField controller m.tag
  let mac := suite.computeMac m.macKey (controller :: (stampNonceCounter m.counter ++ (tag ++ body)))
  controller :: (maskNonceCounter suite (stampNonceCounter m.counter) m.headerKey mac ++
    (tag ++ (body ++ mac)))

/-! ## Opening -/

def secureHeaderSize (d : Datagram) : ℕ :=
  if d.isTagged then wireSecureHeadSize + wirePeerTagSize else wireSecureHeadSize

/-- `OpenMacOnlyPacket`: the counter and the packet with its counter unmasked. -/
def openMacOnlyPacket (suite : CipherSuite) (d : Datagram) (macKey headerKey : Key) :
    Option (ℕ × Datagram) :=
  if d.length < secureHeaderSize d + wireTagSize then none
  else
    let covered := d.length - wireTagSize
    let carried := d.drop covered
    let nonceField := maskNonceCounter suite ((d.drop 1).take wireNonceSize) headerKey carried
    let restored := d.take 1 ++ (nonceField ++ (d.drop wireSecureHeadSize).take
      (covered - wireSecureHeadSize))
    if suite.computeMac macKey restored = carried then
      some (readNonceCounter nonceField, restored ++ carried)
    else none

/-- `OpenSecurePacket`: the counter and the packet with its body decrypted in place. -/
def openSecurePacket (suite : CipherSuite) (d : Datagram) (key headerKey : Key)
    (senderLane : UInt8) : Option (ℕ × Datagram) :=
  let headerSize := secureHeaderSize d
  if d.length < headerSize + wireTagSize then none
  else
    let tag := d.drop (d.length - wireTagSize)
    let nonceField := maskNonceCounter suite ((d.drop 1).take wireNonceSize) headerKey tag
    let counter := readNonceCounter nonceField
    let peerTag := if d.isTagged then (d.drop wireSecureHeadSize).take wirePeerTagSize else []
    let body := (d.drop headerSize).take (d.length - headerSize - wireTagSize)
    match suite.decrypt key (expandNonce counter senderLane)
        (buildSecureAad d.controller peerTag) body tag with
    | none => none
    | some plain => some (counter, d.take headerSize ++ (plain ++ tag))

/-! ## The layout both seals share -/

theorem isTagged_cons (controller : UInt8) (rest : List UInt8) :
    Datagram.isTagged (controller :: rest) = taggedController controller := by
  simp [Datagram.isTagged, Datagram.isSecure, Datagram.isValid, Datagram.controller,
    taggedController]

theorem tagField_length (controller : UInt8) (tag : PeerTag) (rest : List UInt8) :
    secureHeaderSize (controller :: rest) =
      wireSecureHeadSize + (tagField controller tag).length := by
  simp only [secureHeaderSize, isTagged_cons, tagField]
  split
  · rw [tag.size]
  · rfl

section Layout
variable (controller : UInt8) {nonce trailer : List UInt8} (middle : List UInt8)
  (hn : nonce.length = wireNonceSize) (ht : trailer.length = wireTagSize)
include hn

theorem layout_nonce (rest : List UInt8) :
    ((controller :: (nonce ++ rest)).drop 1).take wireNonceSize = nonce := by
  simp [← hn]

theorem layout_body (rest : List UInt8) (n : ℕ) :
    (controller :: (nonce ++ rest)).drop (wireSecureHeadSize + n) = rest.drop n := by
  have hhead : wireSecureHeadSize + n = nonce.length + n + 1 := by
    rw [hn]
    simp only [wireSecureHeadSize, wireNonceSize]
    omega
  rw [hhead, List.drop_succ_cons, List.drop_length_add_append]

include ht

theorem layout_trailer :
    (controller :: (nonce ++ (middle ++ trailer))).drop
      ((controller :: (nonce ++ (middle ++ trailer))).length - wireTagSize) = trailer := by
  have hlen : (controller :: (nonce ++ (middle ++ trailer))).length - wireTagSize =
      (controller :: (nonce ++ middle)).length := by
    simp only [List.length_cons, List.length_append, ht]
    omega
  have hsplit : controller :: (nonce ++ (middle ++ trailer)) =
      (controller :: (nonce ++ middle)) ++ trailer := by
    simp
  rw [hlen, hsplit, List.drop_left]

theorem layout_middle :
    ((controller :: (nonce ++ (middle ++ trailer))).drop wireSecureHeadSize).take
      ((controller :: (nonce ++ (middle ++ trailer))).length - wireTagSize - wireSecureHeadSize) =
      middle := by
  have hlen : (controller :: (nonce ++ (middle ++ trailer))).length - wireTagSize -
      wireSecureHeadSize = middle.length := by
    simp only [List.length_cons, List.length_append, hn, ht, wireNonceSize, wireSecureHeadSize]
    omega
  rw [hlen]
  have hdrop := layout_body controller hn (middle ++ trailer) 0
  rw [Nat.add_zero] at hdrop
  rw [hdrop, List.drop_zero, List.take_left]

end Layout

section SealedLayout
variable (controller : UInt8) (tag : PeerTag) {nonce cipher trailer : List UInt8}
  (hn : nonce.length = wireNonceSize)
include hn

theorem layout_head (rest : List UInt8) :
    (controller :: (nonce ++ (tagField controller tag ++ rest))).take
      (wireSecureHeadSize + (tagField controller tag).length) =
      controller :: (nonce ++ tagField controller tag) := by
  have hsplit : controller :: (nonce ++ (tagField controller tag ++ rest)) =
      (controller :: (nonce ++ tagField controller tag)) ++ rest := by
    simp
  have hlen : wireSecureHeadSize + (tagField controller tag).length =
      (controller :: (nonce ++ tagField controller tag)).length := by
    simp only [List.length_cons, List.length_append, hn, wireSecureHeadSize, wireNonceSize]
    omega
  rw [hsplit, hlen, List.take_left]

theorem layout_peerTag (rest : List UInt8) :
    (if Datagram.isTagged (controller :: (nonce ++ (tagField controller tag ++ rest))) then
      ((controller :: (nonce ++ (tagField controller tag ++ rest))).drop
        wireSecureHeadSize).take wirePeerTagSize else []) = tagField controller tag := by
  have hbody := layout_body controller hn (tagField controller tag ++ rest) 0
  rw [Nat.add_zero, List.drop_zero] at hbody
  rw [isTagged_cons, hbody]
  by_cases h : taggedController controller = true
  · have hfield : tagField controller tag = tag.bytes := by simp [tagField, h]
    rw [if_pos h, hfield, ← tag.size, List.take_left]
  · simp [tagField, h]

theorem layout_cipher (ht : trailer.length = wireTagSize) :
    ((controller :: (nonce ++ (tagField controller tag ++ (cipher ++ trailer)))).drop
      (wireSecureHeadSize + (tagField controller tag).length)).take
      ((controller :: (nonce ++ (tagField controller tag ++ (cipher ++ trailer)))).length -
        (wireSecureHeadSize + (tagField controller tag).length) - wireTagSize) = cipher := by
  have hlen : (controller :: (nonce ++ (tagField controller tag ++ (cipher ++ trailer)))).length -
      (wireSecureHeadSize + (tagField controller tag).length) - wireTagSize = cipher.length := by
    simp only [List.length_cons, List.length_append, hn, ht, wireSecureHeadSize, wireNonceSize]
    omega
  rw [layout_body controller hn, List.drop_left, hlen, List.take_left]

end SealedLayout

section
variable (suite : CipherSuite)

theorem openMacOnlyPacket_layout (controller : UInt8)
    {nonce middle trailer : List UInt8} (hn : nonce.length = wireNonceSize)
    (ht : trailer.length = wireTagSize) (tag : PeerTag)
    (hm : (tagField controller tag).length ≤ middle.length) (macKey headerKey : Key) :
    openMacOnlyPacket suite (controller :: (nonce ++ (middle ++ trailer))) macKey headerKey =
      let field := maskNonceCounter suite nonce headerKey trailer
      if suite.computeMac macKey (controller :: (field ++ middle)) = trailer then
        some (readNonceCounter field, controller :: (field ++ (middle ++ trailer)))
      else none := by
  have hlong : ¬ (controller :: (nonce ++ (middle ++ trailer))).length <
      secureHeaderSize (controller :: (nonce ++ (middle ++ trailer))) + wireTagSize := by
    rw [tagField_length controller tag]
    simp only [List.length_cons, List.length_append, hn, ht, wireSecureHeadSize, wireNonceSize]
    omega
  rw [openMacOnlyPacket]
  rw [if_neg hlong]
  simp only [layout_trailer controller middle hn ht, layout_nonce controller hn,
    layout_middle controller middle hn ht, List.take_succ_cons, List.take_zero]
  simp

theorem openSecurePacket_layout (controller : UInt8)
    {nonce cipher trailer : List UInt8} (hn : nonce.length = wireNonceSize)
    (ht : trailer.length = wireTagSize) (tag : PeerTag) (key headerKey : Key) (lane : UInt8) :
    openSecurePacket suite
        (controller :: (nonce ++ (tagField controller tag ++ (cipher ++ trailer)))) key headerKey
        lane =
      let counter := readNonceCounter (maskNonceCounter suite nonce headerKey trailer)
      (suite.decrypt key (expandNonce counter lane)
        (buildSecureAad controller (tagField controller tag)) cipher trailer).map fun plain =>
          (counter, controller :: (nonce ++ (tagField controller tag ++ (plain ++ trailer)))) := by
  have hassoc : tagField controller tag ++ (cipher ++ trailer) =
      (tagField controller tag ++ cipher) ++ trailer := (List.append_assoc _ _ _).symm
  have hlong : ¬ (controller :: (nonce ++ (tagField controller tag ++ (cipher ++ trailer)))).length <
      wireSecureHeadSize + (tagField controller tag).length + wireTagSize := by
    simp only [List.length_cons, List.length_append, hn, ht, wireSecureHeadSize, wireNonceSize]
    omega
  have htrailer := layout_trailer controller (tagField controller tag ++ cipher) hn ht
  rw [← hassoc] at htrailer
  rw [openSecurePacket]
  simp only [tagField_length controller tag, if_neg hlong, htrailer, layout_nonce controller hn,
    layout_cipher controller tag hn ht, layout_peerTag controller tag hn,
    layout_head controller tag hn, Datagram.controller, List.headD_cons]
  cases suite.decrypt key _ _ cipher trailer with
  | none => rfl
  | some plain => simp

/-! ## What is sealed opens -/

theorem masked_length (counter : ℕ) (headerKey : Key) (tag : List UInt8) :
    (maskNonceCounter suite (stampNonceCounter counter) headerKey tag).length = wireNonceSize := by
  simp [maskNonceCounter, stampNonceCounter, suite.subKey_length, wireNonceSize]

theorem readNonceCounter_masked {counter : ℕ} (h : counter < 2 ^ 64)
    (headerKey : Key) (tag : List UInt8) :
    readNonceCounter (maskNonceCounter suite
      (maskNonceCounter suite (stampNonceCounter counter) headerKey tag) headerKey tag) =
      counter := by
  rw [maskNonceCounter_mask suite _ headerKey tag (by simp [stampNonceCounter])]
  rw [readNonceCounter, stampNonceCounter, ofLeBytes_leBytes]
  exact Nat.mod_eq_of_lt h

end

def sealTag (suite : CipherSuite) (controller : UInt8) (body : List UInt8)
    (m : PeerSendMaterials) : List UInt8 :=
  (suite.encrypt m.key (expandNonce m.counter m.lane)
    (buildSecureAad controller (tagField controller m.tag)) body).2

def sealMac (suite : CipherSuite) (controller : UInt8) (body : List UInt8)
    (m : PeerSendMaterials) : List UInt8 :=
  suite.computeMac m.macKey
    (controller :: (stampNonceCounter m.counter ++ (tagField controller m.tag ++ body)))

section
variable (suite : CipherSuite) (controller : UInt8) (body : List UInt8) (m : PeerSendMaterials)

theorem openMacOnlyPacket_seal_eq (h : m.counter < 2 ^ 64) :
    openMacOnlyPacket suite (sealMacOnlyPacket suite controller body m) m.macKey m.headerKey =
      some (m.counter, controller :: (stampNonceCounter m.counter ++
        ((tagField controller m.tag ++ body) ++ sealMac suite controller body m))) := by
  simp only [sealMacOnlyPacket]
  rw [← List.append_assoc (tagField controller m.tag),
    openMacOnlyPacket_layout suite controller (masked_length suite _ _ _) (suite.mac_length _ _)
      m.tag (by simp)]
  simp only [readNonceCounter_masked suite h]
  rw [maskNonceCounter_mask suite _ m.headerKey _ (by simp [stampNonceCounter])]
  exact if_pos rfl

theorem openSecurePacket_seal_eq (h : m.counter < 2 ^ 64) :
    openSecurePacket suite (sealSecurePacket suite controller body m) m.key m.headerKey m.lane =
      some (m.counter, controller ::
        (maskNonceCounter suite (stampNonceCounter m.counter) m.headerKey
          (sealTag suite controller body m) ++
        (tagField controller m.tag ++ (body ++ sealTag suite controller body m)))) := by
  simp only [sealSecurePacket]
  rw [openSecurePacket_layout suite controller (masked_length suite _ _ _)
    (suite.tag_length _ _ _ _)]
  simp only [readNonceCounter_masked suite h]
  rw [(suite.decrypt_iff _ _ _ _ _ body).mpr rfl]
  rfl

theorem openMacOnlyPacket_seal (h : m.counter < 2 ^ 64) :
    ∃ opened, openMacOnlyPacket suite (sealMacOnlyPacket suite controller body m) m.macKey
      m.headerKey = some (m.counter, opened) :=
  ⟨_, openMacOnlyPacket_seal_eq suite controller body m h⟩

theorem sealSecurePacket_trailer :
    (sealSecurePacket suite controller body m).drop
      ((sealSecurePacket suite controller body m).length - wireTagSize) =
      sealTag suite controller body m := by
  have h := layout_trailer controller (tagField controller m.tag ++
    (suite.encrypt m.key (expandNonce m.counter m.lane)
      (buildSecureAad controller (tagField controller m.tag)) body).1)
    (masked_length suite m.counter m.headerKey (sealTag suite controller body m))
    (suite.tag_length m.key (expandNonce m.counter m.lane)
      (buildSecureAad controller (tagField controller m.tag)) body)
  rw [List.append_assoc] at h
  exact h

theorem sealSecurePacket_length :
    (sealSecurePacket suite controller body m).length =
      wireSecureHeadSize + (tagField controller m.tag).length + body.length + wireTagSize := by
  simp only [sealSecurePacket, List.length_cons, List.length_append, masked_length,
    suite.body_length, suite.tag_length, wireSecureHeadSize, wireNonceSize]
  omega

theorem sealMacOnlyPacket_length :
    (sealMacOnlyPacket suite controller body m).length =
      wireSecureHeadSize + (tagField controller m.tag).length + body.length + wireTagSize := by
  simp only [sealMacOnlyPacket, List.length_cons, List.length_append, masked_length,
    suite.mac_length, wireSecureHeadSize, wireNonceSize]
  omega

end

end BcpFlux.Crypto
