import BcpFlux.Socket.Verify

/-! # A packet sent back to its sender

Both ends of a session hold the same three keys.  The sealed kind binds the
direction through the lane byte of its nonce; the MAC-only kind covers the bytes of
the packet and nothing that says who sent it.
-/

namespace BcpFlux.Socket
open Library Wire Crypto

/-- Nobody opens what was sealed under another nonce, and no tag of the cipher is a code of
the MAC. -/
structure Unforgeable (suite : CipherSuite) : Prop where
  cipher : ∀ key aad aad' plain plain' c c' l l',
    suite.encrypt key (expandNonce c l) aad plain = suite.encrypt key (expandNonce c' l') aad' plain' →
    expandNonce c l = expandNonce c' l'
  mac : ∀ key nonce aad plain macKey bytes,
    suite.computeMac macKey bytes ≠ (suite.encrypt key nonce aad plain).2

/-- The sender's own session keys and lane. -/
structure GatheredFrom (publicKey : Key) (peer : SessionPeer) (m : PeerSendMaterials) : Prop where
  key_eq : m.key = peer.session
  headerKey_eq : m.headerKey = peer.headerKey
  macKey_eq : m.macKey = peer.macKey
  lane_eq : m.lane = laneTo publicKey peer.theirPk
  counter_ne : m.counter ≠ 0
  counter_lt : m.counter < 2 ^ 64

theorem gatherSendMaterials_from (publicKey : Key) (peer : SessionPeer)
    (h : peer.sendCounter + 1 < 2 ^ 64) :
    GatheredFrom publicKey peer (gatherSendMaterials publicKey peer).2 := by
  have hcounter : peer.bump.sendCounter = peer.sendCounter + 1 := Nat.mod_eq_of_lt h
  exact ⟨rfl, rfl, rfl, rfl, by simp [gatherSendMaterials, hcounter],
    by simpa [gatherSendMaterials, hcounter] using h⟩

section Reflect
variable {suite : CipherSuite} {publicKey : Key} {peer : SessionPeer} {m : PeerSendMaterials}

theorem openSecurePacket_reflected (hsafe : Unforgeable suite) (hm : GatheredFrom publicKey peer m)
    (controller : UInt8) (body : List UInt8) :
    openSecurePacket suite (sealSecurePacket suite controller body m) peer.session peer.headerKey
      (laneFrom publicKey peer.theirPk) = none := by
  simp only [sealSecurePacket]
  rw [openSecurePacket_layout suite controller (masked_length suite _ _ _)
    (suite.tag_length _ _ _ _), Option.map_eq_none_iff, Option.eq_none_iff_forall_ne_some]
  intro plain hopen
  have hsame := (suite.decrypt_iff _ _ _ _ _ plain).mp hopen
  rw [hm.key_eq] at hsame
  have hnonce := hsafe.cipher _ _ _ _ _ _ _ _ _ hsame
  refine expandNonce_lane_ne ?_ _ _ hnonce
  rw [hm.lane_eq]
  exact (laneTo_ne_laneFrom publicKey peer.theirPk).symm

/-- An encrypted packet carries no code the MAC-only open accepts. -/
theorem openMacOnlyPacket_encrypted (hsafe : Unforgeable suite) (controller : UInt8)
    (body : List UInt8) (macKey headerKey : Key) :
    openMacOnlyPacket suite (sealSecurePacket suite controller body m) macKey headerKey = none := by
  simp only [sealSecurePacket]
  rw [← List.append_assoc (tagField controller m.tag),
    openMacOnlyPacket_layout suite controller (masked_length suite _ _ _)
      (suite.tag_length _ _ _ _) m.tag (by simp)]
  exact if_neg (hsafe.mac _ _ _ _ _ _)

variable (suite) in
/-- A MAC-only packet verifies at its own sender, given a window that has seen nothing. -/
theorem verify_macOnly_reflected (hest : peer.established = true)
    (hm : GatheredFrom publicKey peer m) {controller : UInt8}
    (hsecure : hasBit controller ctrlUnsecure = false)
    (hmac : hasBit controller ctrlMacOnly = true) (body : List UInt8) (window : ReplayWindow) :
    (verify suite publicKey peer window.reset
      (sealMacOnlyPacket suite controller body m)).isSome = true := by
  obtain ⟨opened, hopened⟩ := openMacOnlyPacket_seal suite controller body m hm.counter_lt
  rw [hm.macKey_eq, hm.headerKey_eq] at hopened
  have hbits : (sealMacOnlyPacket suite controller body m).isSecure = true ∧
      (sealMacOnlyPacket suite controller body m).isMacOnly = true := by
    simp [sealMacOnlyPacket, Datagram.isMacOnly, Datagram.isSecure, Datagram.isValid,
      Datagram.controller, hsecure, hmac]
  have haccept := window.accept_reset hm.counter_ne
  simp only [verify, openPacket, hbits.1, hbits.2, hest, hopened, Bool.not_true, Bool.or_false,
    Bool.false_eq_true, if_false, if_true]
  cases hw : window.reset.accept m.counter with
  | none => simp [hw] at haccept
  | some window => rfl

/-- For every packet a socket sealed for its peer: it is refused under every window when it
comes back from the peer's address exactly if it was encrypted. -/
theorem reflection_rejected_iff (hsafe : Unforgeable suite) (hest : peer.established = true)
    (hm : GatheredFrom publicKey peer m) (kind : SealKind) (controller : UInt8)
    (hsecure : hasBit controller ctrlUnsecure = false)
    (hkind : kind = .macOnly → hasBit controller ctrlMacOnly = true) (body : List UInt8) :
    (∀ window : ReplayWindow,
      verify suite publicKey peer window (sealAs suite kind controller body m) = none) ↔
      kind = .encrypted := by
  cases kind with
  | encrypted =>
    refine ⟨fun _ => rfl, fun _ window => ?_⟩
    have hopen : openPacket suite publicKey peer (sealAs suite .encrypted controller body m) =
        none := by
      rw [openPacket]
      split
      · exact openMacOnlyPacket_encrypted hsafe controller body peer.macKey peer.headerKey
      · exact openSecurePacket_reflected hsafe hm controller body
    simp [verify, hopen]
  | macOnly =>
    refine ⟨fun hreject => ?_, fun h => by cases h⟩
    have hsome := verify_macOnly_reflected suite hest hm hsecure (hkind rfl) body
      (.replayFor 64 0 fun _ => 0)
    rw [show sealMacOnlyPacket suite controller body m = sealAs suite .macOnly controller body m
      from rfl, hreject] at hsome
    cases hsome

end Reflect

theorem transparent_unforgeable : Unforgeable .transparent where
  cipher := by
    intro key aad aad' plain plain' c c' l l' h
    have htag := (List.append_inj (Prod.mk.inj h).2 (by simp)).1
    have htake : ∀ c l, (expandNonce c l ++ List.replicate 15 0).take 15 =
        leBytes wireNonceSize c ++ l :: List.replicate 6 0 := by
      intro c l
      rfl
    rw [htake, htake] at htag
    obtain ⟨hbytes, hlane⟩ := List.append_inj htag (by simp)
    rw [expandNonce, expandNonce, hbytes, (List.cons_eq_cons.mp hlane).1]
  mac := by
    intro key nonce aad plain macKey bytes h
    have hlast := (List.append_inj h (by simp)).2
    exact absurd (List.cons_eq_cons.mp hlast).1 (by decide)

/-- An encrypted packet of a fresh session does not come back. -/
theorem reflection_rejected_encrypted :
    let peer := commitSession .transparent [1] [2] [7]
    let m := (gatherSendMaterials [1] peer).2
    ∀ window : ReplayWindow,
      verify .transparent [1] peer window (sealAs .transparent .encrypted 0x02 [0, 9] m) = none := by
  intro peer m
  exact (reflection_rejected_iff transparent_unforgeable rfl
    (gatherSendMaterials_from [1] peer (by decide)) .encrypted 0x02 (by decide)
    (fun h => by cases h) [0, 9]).mpr rfl

/-- The first MAC-only flow packet of a session verifies at its own sender, which has heard
nothing from the peer yet. -/
theorem reflection_accepted_macOnly :
    let peer := commitSession .transparent [1] [2] [7]
    let m := (gatherSendMaterials [1] peer).2
    Unforgeable .transparent ∧
      (verify .transparent [1] peer (.replayFor 64 0 fun _ => 0)
        (sealAs .transparent .macOnly (ctrlHasFlow ||| ctrlMacOnly) [0, 9] m)).isSome = true := by
  intro peer m
  have hm : GatheredFrom [1] peer m := gatherSendMaterials_from [1] peer (by decide)
  exact ⟨transparent_unforgeable, verify_macOnly_reflected .transparent rfl hm (by decide)
    (by decide) [0, 9] (.replayFor 64 0 fun _ => 0)⟩

end BcpFlux.Socket
