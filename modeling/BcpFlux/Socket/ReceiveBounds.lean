import BcpFlux.Socket.ReceiveSlots

/-! # How much buffering takes

Room is asked for before a packet is pinned, except for the packet at the cursor of an
association that holds others behind it.  That exception is meant to free more than it
takes, but a run that moves from the hold-back to the ready lane frees nothing until it is
polled, and with a gap left behind it nothing even moves.
-/

namespace BcpFlux.Socket
open Library Function
open BcpFlux.Flow (InAssociation InDirEntry FlowAdmit Ready findFlowSlot admitIn decodeFlowData
  compareFlowEpoch)

def lanePinned (p : ℕ) (lane : List ReadyEntry) : ℕ := lane.countP fun e => e.peerSlot = some p

namespace Receiver

def pinned (cfg : ReceiveConfig) (s : Receiver) (p : ℕ) : ℕ :=
  (dirHeld (s.dirs p)).card + total (lanePinned p) cfg.laneCount s.lanes

def buffered (cfg : ReceiveConfig) (s : Receiver) : ℕ := (s.held cfg).card + s.attributed cfg

/-- Events that leave the peers and their grants alone. -/
def Event.buffering : Event → Bool
  | .removePeer _ | .seedPeer _ _ | .setGrant _ _ => false
  | _ => true

/-- A packet at the cursor of an association with packets held behind it finds room. -/
def cursorRoom (cfg : ReceiveConfig) (s : Receiver) : Event → Bool
  | .flowPacket m _ _ _ =>
    match decodeFlowData m.flowData, findFlowSlot (s.dirs m.peerSlot) m.flowId with
    | some (_, flowEpoch, _), some (e, _) =>
      if compareFlowEpoch e.assoc.flowEpoch flowEpoch = .current ∧ m.seq = e.assoc.recvNext ∧
          0 < e.assoc.heldCount then s.hasRoomFor cfg m.peerSlot
      else true
    | _, _ => true
  | _ => true

/-- The limits, and the occupancy they are checked against. -/
structure Within (cfg : ReceiveConfig) (grants : ℕ → ℕ) (s : Receiver) : Prop where
  granted : s.grant = grants
  occupied : ∀ p, s.occupancy p = s.pinned cfg p
  ceiling : s.heldTotal ≤ cfg.holdCeiling
  grant : ∀ p, grants p ≠ 0 → s.occupancy p ≤ grants p

variable {cfg : ReceiveConfig} {grants : ℕ → ℕ} {hand : Multiset ℕ} {s : Receiver}

theorem Within.start (cfg : ReceiveConfig) (grants : ℕ → ℕ) : (start grants).Within cfg grants where
  granted := rfl
  occupied := by
    intro p
    simp [Receiver.start, pinned, total, dirHeld, lanePinned]
  ceiling := Nat.zero_le _
  grant := fun _ _ => Nat.zero_le _

theorem hasRoomFor_iff (h : s.Within cfg grants) (p : ℕ) :
    s.hasRoomFor cfg p = true ↔
      (grants p ≠ 0 → s.occupancy p < grants p) ∧ s.heldTotal < cfg.holdCeiling := by
  simp only [hasRoomFor, h.granted, Bool.and_eq_true, Bool.not_eq_true', Bool.and_eq_false_iff,
    bne_eq_false_iff_eq, decide_eq_false_iff_not, decide_eq_true_eq, Nat.not_le]
  tauto

/-! ## Operations -/

theorem Within.giveBack (h : s.Within cfg grants) (hinv : s.Inv cfg hand) {p : ℕ}
    (hp : p < cfg.maxPeers) {dir : List InDirEntry} {slots : List ℕ}
    (hsplit : dirHeld dir + slots = dirHeld (s.dirs p)) :
    { s.giveBack p slots with dirs := update s.dirs p dir }.Within cfg grants := by
  have hcard := congrArg Multiset.card hsplit
  rw [Multiset.card_add, Multiset.coe_card] at hcard
  have hpeer : (dirHeld (s.dirs p)).card ≤ (s.held cfg).card := by
    rw [held, total, Multiset.card_sum]
    exact Finset.single_le_sum (f := fun q => (dirHeld (s.dirs q)).card)
      (fun _ _ => Nat.zero_le _) (Finset.mem_range.mpr hp)
  have htotal : u32 (s.heldTotal + slots.length * (2 ^ 32 - 1)) = s.heldTotal - slots.length :=
    u32_countDown hinv.heldTotal_lt (by have := hinv.counted; omega)
  refine ⟨h.granted, ?_, ?_, ?_⟩
  · intro q
    have hq := h.occupied q
    by_cases heq : q = p
    · subst heq
      simp only [Receiver.giveBack, pinned, update_self] at hq ⊢
      omega
    · simp only [Receiver.giveBack, pinned, update_of_ne heq] at hq ⊢
      exact hq
  · have hle := h.ceiling
    simp only [Receiver.giveBack]
    omega
  · intro q hq
    have hle := h.grant q hq
    by_cases heq : q = p
    · subst heq
      simp only [Receiver.giveBack, update_self]
      omega
    · simp only [Receiver.giveBack, update_of_ne heq]
      exact hle

theorem Within.dropSlot (h : s.Within cfg grants) (slot : ℕ) :
    (s.dropSlot slot).Within cfg grants :=
  { h with }

theorem Within.admitPacket (h : s.Within cfg grants) (hinv : s.Inv cfg hand) (laneCapacity : ℕ)
    (m : FlowPacket) (hp : m.peerSlot < cfg.maxPeers) (acquired : Option InAssociation)
    (recorded : Bool) : (s.admitPacket cfg laneCapacity m acquired recorded).1.Within cfg grants := by
  have hsplit := admitIn_held cfg.limits
    ⟨s.deliveryEnv cfg laneCapacity m.peerSlot, acquired, recorded⟩ ⟨m.peerSlot, m.addr, m.id⟩
    m.flowId m.flowData s m.peerSlot
  have hgiven := h.giveBack hinv hp hsplit
  exact { hgiven with }

theorem lanePinned_attributedTo (q p : ℕ) (ready : List Ready) :
    lanePinned q (attributedTo p ready) = if q = p then ready.length else 0 := by
  by_cases heq : q = p
  · subst heq
    simp [lanePinned, attributedTo, List.countP_map, comp_def]
  · simp [lanePinned, attributedTo, List.countP_map, comp_def, Ne.symm heq, heq]

theorem lanePinned_update (cfg : ReceiveConfig) (s : Receiver) (q : ℕ) {lane : ℕ}
    (hlane : lane < cfg.laneCount) (more : List ReadyEntry) :
    total (lanePinned q) cfg.laneCount (update s.lanes lane (s.lanes lane ++ more)) =
      total (lanePinned q) cfg.laneCount s.lanes + lanePinned q more :=
  total_append (fun _ _ => List.countP_append) hlane more

theorem Within.deliver {slot : ℕ} (h : s.Within cfg grants) (hinv : s.Inv cfg {slot})
    (laneCapacity : ℕ) (m : FlowPacket) (i epoch : ℕ)
    (hcursor : ∀ e, (s.dirs m.peerSlot)[i]? = some e → m.seq = e.assoc.recvNext →
      0 < e.assoc.heldCount → s.hasRoomFor cfg m.peerSlot = true) :
    (s.deliver cfg laneCapacity m slot i epoch).Within cfg grants := by
  unfold Receiver.deliver
  cases he : (s.dirs m.peerSlot)[i]? with
  | none => exact h.dropSlot slot
  | some e =>
    have hshape : e.assoc.Shaped := hinv.shaped m.peerSlot e (List.mem_of_getElem? he)
    dsimp only
    generalize hr : e.assoc.deliverIn (s.deliveryEnv cfg laneCapacity m.peerSlot) m.flowId epoch
      m.seq slot = r
    have hdelivers := InAssociation.deliverIn_delivers (s.deliveryEnv cfg laneCapacity m.peerSlot)
      e.assoc hshape m.flowId epoch m.seq slot
    rw [hr] at hdelivers
    have hcard := card_dirHeld_deliver he hshape hdelivers
    have hlane := cfg.laneOf_lt m.peerSlot
    generalize cfg.laneOf m.peerSlot = lane at hlane ⊢
    -- the peer pins one slot more, or as many as before; nobody else is touched
    have hpinned : ∀ q, (dirHeld (update s.dirs m.peerSlot
          ((s.dirs m.peerSlot).set i { e with assoc := r.1 }) q)).card +
        total (lanePinned q) cfg.laneCount (update s.lanes lane
          (s.lanes lane ++ attributedTo m.peerSlot r.2)) =
        s.pinned cfg q + (if q = m.peerSlot ∧ e.assoc.pins r = true then 1 else 0) := by
      intro q
      rw [lanePinned_update cfg s q hlane, lanePinned_attributedTo, pinned]
      by_cases hq : q = m.peerSlot
      · subst hq
        rw [update_self, if_pos rfl]
        simp only [true_and]
        omega
      · rw [update_of_ne hq, if_neg hq, if_neg (fun hboth => hq hboth.1)]
        rfl
    by_cases hpins : e.assoc.pins r = true
    · rw [if_pos hpins]
      have hroom : s.hasRoomFor cfg m.peerSlot = true := by
        rcases hdelivers.outcome.room hpins with hroom | ⟨-, hseq, hheld⟩
        · exact hroom
        · exact hcursor e he hseq hheld
      obtain ⟨hgrant, hceiling⟩ := (hasRoomFor_iff h m.peerSlot).mp hroom
      have hcap : s.heldTotal + 1 ≤ cfg.poolCapacity := by
        have hbound := hinv.card_le
        have hle := attributed_le cfg s
        have hcount := hinv.counted
        rw [Multiset.card_singleton] at hbound
        omega
      have hpool := poolCapacity_lt cfg
      have htotal : u32 (s.heldTotal + 1) = s.heldTotal + 1 := Nat.mod_eq_of_lt (by omega)
      refine ⟨h.granted, ?_, ?_, ?_⟩
      · intro q
        have hq := hpinned q
        have hold := h.occupied q
        simp only [hpins, and_true] at hq
        simp only [pinned]
        rw [hq]
        by_cases heq : q = m.peerSlot
        · subst heq
          rw [update_self, if_pos rfl, hold]
        · rw [update_of_ne heq, if_neg heq, hold]
          rfl
      · simp only [htotal]
        exact hceiling
      · intro q hq
        have hle := h.grant q hq
        by_cases heq : q = m.peerSlot
        · subst heq
          simp only [update_self]
          exact hgrant hq
        · simp only [update_of_ne heq]
          exact hle
    · rw [if_neg hpins]
      refine ⟨h.granted, ?_, h.ceiling, h.grant⟩
      intro q
      have hq := hpinned q
      rw [if_neg (fun hboth => hpins hboth.2), Nat.add_zero] at hq
      simp only [Receiver.dropSlot, pinned]
      rw [hq]
      exact h.occupied q

theorem Within.plainPacket (h : s.Within cfg grants) (laneCapacity key slot : ℕ) :
    (s.plainPacket cfg laneCapacity key slot).Within cfg grants := by
  unfold Receiver.plainPacket
  have hlane := cfg.laneOf_lt key
  dsimp only
  split_ifs with hroom
  · refine ⟨h.granted, ?_, h.ceiling, h.grant⟩
    intro q
    have hnobody : lanePinned q [⟨slot, none⟩] = 0 := by simp [lanePinned]
    simp only [pinned]
    rw [lanePinned_update cfg s q hlane, hnobody, Nat.add_zero]
    exact h.occupied q
  · exact h.dropSlot slot

theorem Within.handOver (h : s.Within cfg grants) (hinv : s.Inv cfg hand) {lane : ℕ}
    (hlane : lane < cfg.laneCount) {entry : ReadyEntry} {rest : List ReadyEntry}
    (hhead : s.lanes lane = entry :: rest) :
    ({ s with lanes := update s.lanes lane rest }.handOver entry).Within cfg grants := by
  have hpinned : ∀ q, total (lanePinned q) cfg.laneCount (update s.lanes lane rest) +
      (if entry.peerSlot = some q then 1 else 0) = total (lanePinned q) cfg.laneCount s.lanes := by
    intro q
    apply total_tail hlane hhead
    simp [lanePinned, List.countP_cons]
  unfold Receiver.handOver
  cases hpeer : entry.peerSlot with
  | none =>
    refine ⟨h.granted, ?_, h.ceiling, h.grant⟩
    intro q
    have hq := hpinned q
    have hold := h.occupied q
    simp only [hpeer, reduceCtorEq, if_false] at hq
    simp only [pinned] at hold ⊢
    omega
  | some p =>
    have htotal : u32 (s.heldTotal + (2 ^ 32 - 1)) ≤ s.heldTotal := by
      have hlt := hinv.heldTotal_lt
      have hcount := hinv.counted
      have hattributed : 0 < s.attributed cfg := by
        rw [attributed, ← total_tail hlane hhead (c := 1) (by simp [laneAttributed, hpeer])]
        exact Nat.succ_pos _
      have hdown := u32_countDown hlt (n := 1) (by omega)
      rw [Nat.one_mul] at hdown
      omega
    refine ⟨h.granted, ?_, htotal.trans h.ceiling, ?_⟩
    · intro q
      have hq := hpinned q
      have hold := h.occupied q
      simp only [hpeer, Option.some.injEq] at hq
      simp only [pinned] at hold ⊢
      by_cases heq : q = p
      · subst heq
        rw [if_pos rfl] at hq
        rw [update_self]
        omega
      · rw [if_neg (Ne.symm heq)] at hq
        rw [update_of_ne heq]
        omega
    · intro q hq
      have hle := h.grant q hq
      by_cases heq : q = p
      · subst heq
        simp only [update_self]
        omega
      · simp only [update_of_ne heq]
        exact hle

theorem Within.poll (h : s.Within cfg grants) (hinv : s.Inv cfg hand) {lane : ℕ}
    (hlane : lane < cfg.laneCount) (max : ℕ) : (s.poll lane max).Within cfg grants := by
  induction max generalizing s with
  | zero => exact h
  | succ max ih =>
    rw [Receiver.poll]
    cases hhead : s.lanes lane with
    | nil => exact h
    | cons entry rest => exact ih (h.handOver hinv hlane hhead) (hinv.handOver hlane hhead)

theorem Within.releaseHandle (h : s.Within cfg grants) (i : ℕ) :
    (s.releaseHandle i).Within cfg grants := by
  unfold Receiver.releaseHandle
  cases s.handles[i]? with
  | none => exact h
  | some slot => exact { h with }

theorem Within.setEntry (h : s.Within cfg grants) (hinv : s.Inv cfg hand) {p i : ℕ}
    (hp : p < cfg.maxPeers) {e : InDirEntry} (he : (s.dirs p)[i]? = some e)
    (assoc : InAssociation) (slots : List ℕ)
    (hslots : (assoc.heldSlots : Multiset ℕ) + slots = e.assoc.heldSlots) :
    { s.giveBack p slots with
      dirs := update s.dirs p ((s.dirs p).set i { e with assoc := assoc }) }.Within
        cfg grants := by
  apply h.giveBack hinv hp
  apply add_right_cancel (b := (e.assoc.heldSlots : Multiset ℕ))
  rw [add_right_comm, dirHeld_set he { e with assoc := assoc }, add_assoc, hslots]

theorem Within.reclaimEntry (h : s.Within cfg grants) (hinv : s.Inv cfg hand) {p : ℕ}
    (hp : p < cfg.maxPeers) (i : ℕ) : (s.reclaimEntry cfg p i).Within cfg grants := by
  unfold Receiver.reclaimEntry
  cases he : (s.dirs p)[i]? with
  | none => exact h
  | some e => exact h.setEntry hinv hp he _ _ (reclaimJammed_slots cfg s e)

theorem Within.reclaim (h : s.Within cfg grants) (hinv : s.Inv cfg hand) {p : ℕ}
    (hp : p < cfg.maxPeers) : (s.reclaim cfg p).Within cfg grants := by
  unfold Receiver.reclaim
  induction List.range (s.dirs p).length generalizing s with
  | nil => exact h
  | cons i rest ih => exact ih (h.reclaimEntry hinv hp i) (hinv.reclaimEntry hp i)

theorem Within.flushAck (h : s.Within cfg grants) {p : ℕ} (i room : ℕ) :
    (s.flushAck p i room).Within cfg grants := by
  unfold Receiver.flushAck
  cases he : (s.dirs p)[i]? with
  | none => exact h
  | some e =>
    obtain ⟨-, -, hring, -, -, -, hcap⟩ := InAssociation.takeAckEntry_frame e.assoc s.clock room
    have hset := dirHeld_set he { e with assoc := (e.assoc.takeAckEntry s.clock room).1 }
    rw [InAssociation.heldSlots_congr hcap hring] at hset
    have hsame := add_right_cancel hset
    refine ⟨h.granted, ?_, h.ceiling, h.grant⟩
    intro q
    have hold := h.occupied q
    simp only [pinned] at hold ⊢
    by_cases heq : q = p
    · subst heq
      rw [update_self, hsame, hold]
    · rw [update_of_ne heq, hold]

theorem compareFlowEpoch_of_admitOrder {stallTimeout now : ℕ} {assoc : InAssociation}
    {flowEpoch : UInt8} (h : Flow.admitOrder stallTimeout now assoc flowEpoch = .current) :
    compareFlowEpoch assoc.flowEpoch flowEpoch = .current := by
  simp only [Flow.admitOrder] at h
  split_ifs at h
  exact h

/-- The room a cursor packet found before its admission is there after it. -/
theorem admit_cursorRoom (hinv : s.Inv cfg hand) (laneCapacity i epoch : ℕ) {m : FlowPacket}
    {slot : ℕ} {acquired : Option InAssociation} {recorded : Bool}
    (hroom : s.cursorRoom cfg (.flowPacket m slot acquired recorded) = true)
    (hfound : (s.admitPacket cfg laneCapacity m acquired recorded).2 = some (i, epoch)) :
    ∀ e, ((s.admitPacket cfg laneCapacity m acquired recorded).1.dirs m.peerSlot)[i]? = some e →
      m.seq = e.assoc.recvNext → 0 < e.assoc.heldCount →
      (s.admitPacket cfg laneCapacity m acquired recorded).1.hasRoomFor cfg m.peerSlot = true := by
  intro e he hseq hheld
  simp only [Receiver.admitPacket, update_self] at he
  rcases Flow.admitIn_found _ _ _ _ _ _ hfound with
    ⟨hdir, hverdict, mode, flowEpoch, part, e', hdecode, hfind, hcurrent⟩ |
    ⟨-, e', old, params, hfind, hfresh⟩
  · -- the association as it was, and no count changed
    rw [hdir] at he
    obtain ⟨hget, -, -⟩ := Flow.findFlowSlot_eq_some_iff.mp hfind
    rw [hget, Option.some.injEq] at he
    subst he
    have hcompare := compareFlowEpoch_of_admitOrder hcurrent
    simp only [cursorRoom, hdecode, hfind, hcompare, hseq, hheld, and_self, if_true] at hroom
    have htotal : u32 s.heldTotal = s.heldTotal := Nat.mod_eq_of_lt hinv.heldTotal_lt
    simp only [Receiver.admitPacket, hverdict, reopened, Receiver.giveBack, hasRoomFor, List.length_nil,
      Nat.sub_zero, Nat.zero_mul, Nat.add_zero, update_self, htotal] at hroom ⊢
    exact hroom
  · -- a new generation holds nothing
    rw [(Flow.findFlowSlot_eq_some_iff.mp hfind).1, Option.some.injEq] at he
    subst he
    rcases hfresh with hfresh | hfresh <;> rw [hfresh] at hheld <;> exact absurd hheld (Nat.lt_irrefl 0)

theorem Within.flowPacket {slot : ℕ} (h : s.Within cfg grants) (hinv : s.Inv cfg {slot})
    (laneCapacity : ℕ) (m : FlowPacket) (hp : m.peerSlot < cfg.maxPeers)
    (acquired : Option InAssociation) (recorded : Bool)
    (hroom : s.cursorRoom cfg (.flowPacket m slot acquired recorded) = true) :
    (s.flowPacket cfg laneCapacity m slot acquired recorded).Within cfg grants := by
  have hentered := h.admitPacket hinv laneCapacity m hp acquired recorded
  have hadmitInv := hinv.admitPacket laneCapacity m hp acquired recorded
  have hcursor := fun i epoch => admit_cursorRoom hinv laneCapacity i epoch hroom
  unfold Receiver.flowPacket
  split_ifs with hfields
  · exact h.dropSlot slot
  · generalize s.admitPacket cfg laneCapacity m acquired recorded = a at hentered hadmitInv hcursor ⊢
    obtain ⟨s', _ | ⟨i, epoch⟩⟩ := a
    · exact hentered.dropSlot slot
    · exact hentered.deliver hadmitInv laneCapacity m i epoch (hcursor i epoch rfl)

theorem Within.stepWith (h : s.Within cfg grants) (hinv : s.Inv cfg 0) (laneCapacity : ℕ)
    {e : Event} (hbuffering : e.buffering = true) (hroom : s.cursorRoom cfg e = true) :
    (s.stepWith cfg laneCapacity e).Within cfg grants := by
  cases e with
  | flowPacket m slot acquired recorded =>
    rw [Receiver.stepWith]
    split_ifs with hguard
    · have hlease : (s.lease slot).Within cfg grants := { h with }
      exact hlease.flowPacket (hinv.lease hguard.1) laneCapacity m hguard.2 acquired recorded hroom
    · exact h
  | plainPacket key slot =>
    rw [Receiver.stepWith]
    split_ifs with hguard
    · have hlease : (s.lease slot).Within cfg grants := { h with }
      exact hlease.plainPacket laneCapacity key slot
    · exact h
  | poll lane max =>
    rw [Receiver.stepWith]
    split_ifs with hlane
    · exact h.poll hinv hlane max
    · exact h
  | releaseHandle i => exact h.releaseHandle i
  | reclaim p =>
    rw [Receiver.stepWith]
    split_ifs with hp
    · exact h.reclaim hinv hp
    · exact h
  | flushAck p i room =>
    rw [Receiver.stepWith]
    split_ifs with hp
    · exact h.flushAck i room
    · exact h
  | removePeer p => cases hbuffering
  | seedPeer p recvGrant => cases hbuffering
  | setGrant p slots => cases hbuffering

/-! ## Runs -/

/-- In every run of arrivals, polls and reclaims in which a cursor packet with packets held
behind it arrives only while there is room, the slots held by flows stay within the ceiling,
and those pinned by a peer within its grant. -/
theorem buffering_within_limits (cfg : ReceiveConfig) (grants : ℕ → ℕ) (es : List (ℕ × Event))
    (hes : Along (step cfg) (fun s e => e.2.buffering = true ∧ s.cursorRoom cfg e.2 = true)
      (start grants) es) :
    let s := run (step cfg) (start grants) es
    s.buffered cfg ≤ cfg.holdCeiling ∧ ∀ p, grants p ≠ 0 → s.pinned cfg p ≤ grants p := by
  intro s
  have h : s.Inv cfg 0 ∧ s.Within cfg grants := by
    apply run_invariant (step cfg) (fun s => s.Inv cfg 0 ∧ s.Within cfg grants) _ _
      ⟨Inv.start cfg grants, Within.start cfg grants⟩ hes
    rintro s e ⟨hbuffering, hroom⟩ ⟨hinv, h⟩
    have hclock : { s with clock := s.clock + e.1 }.Within cfg grants := { h with }
    refine ⟨(hinv.tick _).stepWith _ _, hclock.stepWith (hinv.tick _) _ hbuffering ?_⟩
    cases he : e.2 with
    | flowPacket m slot acquired recorded => rw [he] at hroom; exact hroom
    | _ => rfl
  refine ⟨?_, ?_⟩
  · rw [buffered, ← h.1.counted]
    exact h.2.ceiling
  · intro p hp
    rw [← h.2.occupied p]
    exact h.2.grant p hp

/-- Four slots with two in reserve, one peer granted two, and packets of its first flow. -/
def tight : ReceiveConfig := ⟨4, 2, 1, 1, ⟨100, 2⟩⟩

def tightPacket (seq slot : ℕ) : ℕ × Event :=
  (1, .flowPacket ⟨0, ⟨[], 0, 0⟩, ⟨[]⟩, 1, 0, seq⟩ slot (some .raw) false)

/-- The gap is filled while there is room, and the rest arrives after a poll. -/
theorem buffering_within_limits_polled :
    let es := [tightPacket 2 0, tightPacket 1 1, (1, .poll 0 4), tightPacket 3 2]
    let s := run (step tight) (start fun _ => 2) es
    s.buffered tight ≤ tight.holdCeiling ∧ s.pinned tight 0 ≤ 2 := by
  intro es s
  have hlimits := buffering_within_limits tight (fun _ => 2) es (by decide +kernel)
  exact ⟨hlimits.1, hlimits.2 0 (by decide)⟩

/-- One packet held far ahead lets every packet at the cursor in: with the grant and the
ceiling at two, three slots are taken, and one of them is a reserved one. -/
theorem cursor_packets_pass_the_limits :
    let es := [tightPacket 5 0, tightPacket 1 1, tightPacket 2 2]
    let s := run (step tight) (start fun _ => 2) es
    Along (step tight) (fun _ e => e.2.buffering = true) (start fun _ => 2) es ∧
      tight.holdCeiling < s.buffered tight ∧ 2 < s.pinned tight 0 := by
  decide +kernel

end Receiver

end BcpFlux.Socket
