import BcpFlux.Socket.Receive
import Mathlib.Algebra.Order.BigOperators.Group.Finset

/-! # Receive slots are conserved

Every leased receive slot is in exactly one place: a hold-back entry, a ready-lane entry or
a handle of the application.  The count of buffered slots is the number of hold-back entries
and attributed lane entries, and since a lane has an entry for every slot of the pool, no
push finds it full.
-/

namespace BcpFlux.Socket
open Library Function
open BcpFlux.Flow (InAssociation InDirEntry FlowAdmit Ready findFlowSlot admitIn)

/-! ## What each place holds -/

def dirHeld (dir : List InDirEntry) : Multiset ℕ :=
  (dir.map fun e => (e.assoc.heldSlots : Multiset ℕ)).sum

def laneSlots (lane : List ReadyEntry) : Multiset ℕ := (lane.map ReadyEntry.slotIndex : List ℕ)

def laneAttributed (lane : List ReadyEntry) : ℕ := lane.countP fun e => e.peerSlot.isSome

theorem dirHeld_set {dir : List InDirEntry} {i : ℕ} {e : InDirEntry} (he : dir[i]? = some e)
    (e' : InDirEntry) :
    dirHeld (dir.set i e') + e.assoc.heldSlots = dirHeld dir + e'.assoc.heldSlots := by
  induction dir generalizing i with
  | nil => simp at he
  | cons x dir ih =>
    cases i with
    | zero =>
      simp only [List.getElem?_cons_zero, Option.some.injEq] at he
      subst he
      simp only [dirHeld, List.set_cons_zero, List.map_cons, List.sum_cons]
      abel
    | succ i =>
      have hrest := ih (by simpa using he)
      simp only [dirHeld, List.set_cons_succ, List.map_cons, List.sum_cons] at hrest ⊢
      rw [add_assoc, hrest]
      abel

theorem dirHeld_concat (dir : List InDirEntry) (e : InDirEntry) :
    dirHeld (dir ++ [e]) = dirHeld dir + e.assoc.heldSlots := by
  simp [dirHeld]

theorem laneSlots_append (lane lane' : List ReadyEntry) :
    laneSlots (lane ++ lane') = laneSlots lane + laneSlots lane' := by
  simp [laneSlots]

theorem card_laneSlots (lane : List ReadyEntry) : (laneSlots lane).card = lane.length := by
  simp [laneSlots]

/-! ## Admission -/

section Admission
variable {limits : Flow.ReceiveLimits} {env : Flow.FlowInEnv} {dir : List InDirEntry}
  {peer : Flow.PeerRef} {flowId : ℕ} {flowData : UInt8} {r : List InDirEntry × FlowAdmit}

theorem modify_mark (dir : List InDirEntry) (i : ℕ) :
    dirHeld (dir.modify i Flow.markEmitting) = dirHeld dir := by
  cases he : dir[i]? with
  | none => rw [List.modify_eq_self (List.getElem?_eq_none_iff.mp he)]
  | some e =>
    have hset := dirHeld_set he (Flow.markEmitting e)
    rw [List.modify_eq_set_getElem?, he]
    exact add_right_cancel hset

theorem shaped_modify_mark (h : ∀ e ∈ dir, e.assoc.Shaped) (i : ℕ) :
    ∀ e ∈ dir.modify i Flow.markEmitting, e.assoc.Shaped := by
  intro e he
  obtain ⟨j, hj⟩ := List.mem_iff_getElem?.mp he
  rw [List.getElem?_modify] at hj
  obtain ⟨e', he', rfl⟩ := Option.map_eq_some_iff.mp hj
  have hshape : e'.assoc.Shaped := h e' (List.mem_of_getElem? he')
  split
  · exact ⟨hshape.cut, hshape.pos, hshape.lt⟩
  · exact hshape

/-- The slots an admission gives up are those of the generation it replaces. -/
theorem admission_held (s : Receiver) {p : ℕ}
    (h : Flow.Admission limits env (s.dirs p) peer flowId flowData r) :
    dirHeld r.1 + (s.reopened p flowId r.2 : List ℕ) = dirHeld (s.dirs p) := by
  cases h with
  | refused verdict away =>
    have hnone : s.reopened p flowId verdict = [] := by
      rcases away with rfl | rfl <;> rfl
    rw [hnone]
    simp
  | existing => simp [Receiver.reopened]
  | reopened mode flowEpoch part e i _ found _ _ =>
    have hset := dirHeld_set (Flow.getElem?_of_findFlowSlot found)
      (Flow.reopenEntry e (Flow.resetParams peer flowId mode flowEpoch) env.delivery.now)
    have hfresh : (Flow.reopenEntry e (Flow.resetParams peer flowId mode flowEpoch)
        env.delivery.now).assoc.heldSlots = [] := InAssociation.heldSlots_reset _ _ _
    rw [hfresh] at hset
    have hgone : s.reopened p flowId .reopened = e.assoc.heldSlots := by
      unfold Receiver.reopened
      rw [found]
    rw [hgone, hset]
    simp
  | registered mode flowEpoch part old _ missing =>
    have hnone : s.reopened p flowId .registered = [] := rfl
    rw [hnone, dirHeld_concat, InAssociation.heldSlots_reset]
    simp

theorem shaped_set (hdir : ∀ e ∈ dir, e.assoc.Shaped) {e : InDirEntry} (he : e.assoc.Shaped) (i : ℕ) :
    ∀ e' ∈ dir.set i e, e'.assoc.Shaped := by
  intro e' he'
  rcases List.mem_or_eq_of_mem_set he' with hold | rfl
  · exact hdir e' hold
  · exact he

theorem admission_shaped (h : Flow.Admission limits env dir peer flowId flowData r)
    (hshape : ∀ e ∈ dir, e.assoc.Shaped) : ∀ e ∈ r.1, e.assoc.Shaped := by
  cases h with
  | refused verdict _ => exact hshape
  | existing => exact hshape
  | reopened mode flowEpoch part e i _ _ _ _ =>
    exact shaped_set hshape (InAssociation.shaped_reset _ _ _) i
  | registered mode flowEpoch part old _ _ =>
    intro e' he'
    rcases List.mem_append.mp he' with hold | hnew
    · exact hshape e' hold
    · rw [List.mem_singleton.mp hnew]
      exact InAssociation.shaped_reset _ _ _

variable (limits env peer flowId flowData)

theorem admitIn_held (s : Receiver) (p : ℕ) :
    dirHeld (admitIn limits env (s.dirs p) peer flowId flowData).1 +
        (s.reopened p flowId (admitIn limits env (s.dirs p) peer flowId flowData).2.1 : List ℕ) =
      dirHeld (s.dirs p) := by
  have hflow := admission_held s (Flow.admitInFlow_admission limits env (s.dirs p) peer flowId flowData)
  obtain ⟨hverdict, hdir | ⟨i, hdir⟩⟩ := Flow.admitIn_dir limits env (s.dirs p) peer flowId flowData
  · rw [hverdict, hdir, hflow]
  · rw [hverdict, hdir, modify_mark, hflow]

theorem admitIn_shaped (hshape : ∀ e ∈ dir, e.assoc.Shaped) :
    ∀ e ∈ (admitIn limits env dir peer flowId flowData).1, e.assoc.Shaped := by
  have hflow := admission_shaped (Flow.admitInFlow_admission limits env dir peer flowId flowData) hshape
  obtain ⟨-, hdir | ⟨i, hdir⟩⟩ := Flow.admitIn_dir limits env dir peer flowId flowData
  · rw [hdir]
    exact hflow
  · rw [hdir]
    exact shaped_modify_mark hflow i

end Admission

/-! ## The books -/

namespace Receiver

def held (cfg : ReceiveConfig) (s : Receiver) : Multiset ℕ := total dirHeld cfg.maxPeers s.dirs

def queued (cfg : ReceiveConfig) (s : Receiver) : Multiset ℕ := total laneSlots cfg.laneCount s.lanes

def attributed (cfg : ReceiveConfig) (s : Receiver) : ℕ :=
  total laneAttributed cfg.laneCount s.lanes

/-- The leases are the slots in their places and those in hand, and the count of buffered
slots is right. -/
structure Inv (cfg : ReceiveConfig) (hand : Multiset ℕ) (s : Receiver) : Prop where
  balance : s.pool.Balanced fun _ => s.held cfg + s.queued cfg + ↑s.handles + hand
  fits : ∀ i ∈ s.pool.leased (), i < cfg.poolCapacity
  counted : s.heldTotal = (s.held cfg).card + s.attributed cfg
  shaped : ∀ p, ∀ e ∈ s.dirs p, e.assoc.Shaped

variable {cfg : ReceiveConfig} {hand : Multiset ℕ} {s : Receiver}

theorem Inv.start (cfg : ReceiveConfig) (grants : ℕ → ℕ) : (start grants).Inv cfg 0 where
  balance := by
    constructor
    · intro pool
      simp [Receiver.start, held, queued, total, dirHeld, laneSlots]
    · rfl
  fits := by simp [Receiver.start]
  counted := by simp [Receiver.start, held, attributed, total, dirHeld, laneAttributed]
  shaped := by simp [Receiver.start]

theorem Inv.card_le (h : s.Inv cfg hand) :
    (s.held cfg).card + (s.queued cfg).card + s.handles.length + hand.card ≤ cfg.poolCapacity := by
  have hsub : s.pool.leased () ⊆ Finset.range cfg.poolCapacity := by
    intro i hi
    exact Finset.mem_range.mpr (h.fits i hi)
  have hcard := Finset.card_le_card hsub
  have hval : (s.pool.leased ()).card =
      (s.held cfg + s.queued cfg + ↑s.handles + hand).card := by
    rw [← h.balance.leases ()]
    rfl
  rw [Finset.card_range, hval] at hcard
  simpa using hcard

theorem attributed_le (cfg : ReceiveConfig) (s : Receiver) :
    s.attributed cfg ≤ (s.queued cfg).card := by
  rw [attributed, queued, total, total, Multiset.card_sum]
  apply Finset.sum_le_sum
  intro i _
  rw [card_laneSlots]
  exact List.countP_le_length

theorem poolCapacity_lt (cfg : ReceiveConfig) : cfg.poolCapacity < 2 ^ 32 := by
  rw [ReceiveConfig.poolCapacity, Pool.nextPowerOfTwo]
  split
  · exact Nat.one_lt_two_pow (by decide)
  · exact Nat.mod_lt _ (Nat.two_pow_pos 32)

theorem Inv.heldTotal_lt (h : s.Inv cfg hand) : s.heldTotal < 2 ^ 32 := by
  have hcard := h.card_le
  have hle := attributed_le cfg s
  have hcap := poolCapacity_lt cfg
  have hcount := h.counted
  omega

theorem u32_countDown {total n : ℕ} (hlt : total < 2 ^ 32) (hle : n ≤ total) :
    u32 (total + n * (2 ^ 32 - 1)) = total - n := by
  have hsplit : total + n * (2 ^ 32 - 1) = (total - n) + n * 2 ^ 32 := by omega
  rw [u32, hsplit, Nat.add_mul_mod_self_right]
  exact Nat.mod_eq_of_lt (by omega)

/-! ## Operations -/

theorem Inv.tick (h : s.Inv cfg hand) (clock : ℕ) : { s with clock := clock }.Inv cfg hand :=
  { h with }

variable {slot : ℕ}

theorem Inv.lease (h : s.Inv cfg 0) (hfree : s.receivable cfg slot = true) :
    (s.lease slot).Inv cfg {slot} := by
  simp only [receivable, decide_eq_true_eq] at hfree
  refine { h with balance := ?_, fits := ?_ }
  · have hleased := h.balance.acquire hfree.2
    constructor
    · intro pool
      have hpool := hleased.leases pool
      simp only [add_zero, Pi.add_apply, Pi.single_eq_same] at hpool
      exact hpool
    · exact hleased.sound
  · intro i hi
    simp only [Receiver.lease, Ledger.acquire, update_self, Finset.mem_insert] at hi
    rcases hi with rfl | hi
    · exact hfree.1
    · exact h.fits i hi

theorem Balanced.unhold {l : Ledger Unit ℕ} {held gone : Multiset ℕ} {slots : List ℕ}
    (h : l.Balanced fun _ => held) (hsplit : gone + slots = held) :
    (l.releaseAll () slots).Balanced fun _ => gone := by
  apply Ledger.Balanced.releaseAll
  constructor
  · intro pool
    have hpool := h.leases pool
    rw [← hsplit] at hpool
    simpa using hpool
  · exact h.sound

theorem leased_releaseAll_subset (l : Ledger Unit ℕ) (slots : List ℕ) :
    (l.releaseAll () slots).leased () ⊆ l.leased () := by
  induction slots generalizing l with
  | nil => exact Finset.Subset.refl _
  | cons i rest ih =>
    apply (ih (l.release () i)).trans
    rw [Ledger.release]
    split
    · simp only [update_self]
      exact Finset.erase_subset _ _
    · exact Finset.Subset.refl _

theorem Inv.dropSlot (h : s.Inv cfg (hand + {slot})) : (s.dropSlot slot).Inv cfg hand := by
  have hrelease : s.pool.release () slot = s.pool.releaseAll () [slot] := rfl
  refine { h with balance := ?_, fits := ?_ }
  · rw [Receiver.dropSlot, hrelease]
    apply Balanced.unhold h.balance
    simp [held, queued, add_assoc]
  · intro i hi
    rw [Receiver.dropSlot, hrelease] at hi
    exact h.fits i (leased_releaseAll_subset _ _ hi)

variable {p : ℕ} {dir : List InDirEntry}

theorem Inv.giveBack (h : s.Inv cfg hand) (hp : p < cfg.maxPeers)
    {slots : List ℕ} (hsplit : dirHeld dir + slots = dirHeld (s.dirs p))
    (hshape : ∀ e ∈ dir, e.assoc.Shaped) :
    { s.giveBack p slots with dirs := update s.dirs p dir }.Inv cfg hand := by
  have hheld : total dirHeld cfg.maxPeers (update s.dirs p dir) + slots = s.held cfg := by
    have hupdate := total_update dirHeld s.dirs hp dir
    rw [← hsplit] at hupdate
    apply add_right_cancel (b := dirHeld dir)
    rw [add_assoc, add_comm (slots : Multiset ℕ), hupdate]
    rfl
  constructor
  · apply Balanced.unhold h.balance
    change total dirHeld cfg.maxPeers (update s.dirs p dir) + s.queued cfg + ↑s.handles +
      hand + ↑slots = _
    rw [← hheld]
    abel
  · intro i hi
    exact h.fits i (leased_releaseAll_subset _ _ hi)
  · have hcard := congrArg Multiset.card hheld
    rw [Multiset.card_add, Multiset.coe_card] at hcard
    have hcount := h.counted
    change u32 (s.heldTotal + slots.length * (2 ^ 32 - 1)) =
      (total dirHeld cfg.maxPeers (update s.dirs p dir)).card + s.attributed cfg
    rw [u32_countDown h.heldTotal_lt (by omega)]
    omega
  · exact all_update (P := fun dir : List InDirEntry => ∀ e ∈ dir, e.assoc.Shaped) hshape h.shaped p

theorem Inv.admitPacket (h : s.Inv cfg hand) (laneCapacity : ℕ) (m : FlowPacket)
    (hp : m.peerSlot < cfg.maxPeers) (acquired : Option InAssociation) (recorded : Bool) :
    (s.admitPacket cfg laneCapacity m acquired recorded).1.Inv cfg hand := by
  have hsplit := admitIn_held cfg.limits
    ⟨s.deliveryEnv cfg laneCapacity m.peerSlot, acquired, recorded⟩ ⟨m.peerSlot, m.addr, m.id⟩
    m.flowId m.flowData s m.peerSlot
  have hinv := h.giveBack hp hsplit (admitIn_shaped _ _ _ _ _ (h.shaped m.peerSlot))
  exact { hinv with }

theorem laneSlots_attributedTo (p : ℕ) (ready : List Ready) :
    laneSlots (attributedTo p ready) = (ready.map Ready.packetSlot : List ℕ) := by
  simp [laneSlots, attributedTo, comp_def]

theorem laneAttributed_attributedTo (p : ℕ) (ready : List Ready) :
    laneAttributed (attributedTo p ready) = ready.length := by
  simp [laneAttributed, attributedTo, List.countP_map]

variable {lane : ℕ}

theorem queued_update (cfg : ReceiveConfig) (s : Receiver) (hlane : lane < cfg.laneCount)
    (more : List ReadyEntry) :
    total laneSlots cfg.laneCount (update s.lanes lane (s.lanes lane ++ more)) =
      s.queued cfg + laneSlots more := total_append laneSlots_append hlane more

theorem attributed_update (cfg : ReceiveConfig) (s : Receiver)
    (hlane : lane < cfg.laneCount) (more : List ReadyEntry) :
    total laneAttributed cfg.laneCount (update s.lanes lane (s.lanes lane ++ more)) =
      s.attributed cfg + laneAttributed more :=
  total_append (fun _ _ => List.countP_append) hlane more

theorem Inv.place (h : s.Inv cfg hand) (total' : ℕ) (hand' : Multiset ℕ)
    (hp : p < cfg.maxPeers) (hlane : lane < cfg.laneCount)
    {more : List ReadyEntry}
    (hslots : dirHeld dir + laneSlots more + hand' = dirHeld (s.dirs p) + hand)
    (htotal : total' + (dirHeld (s.dirs p)).card =
      s.heldTotal + (dirHeld dir).card + laneAttributed more)
    (hshape : ∀ e ∈ dir, e.assoc.Shaped) :
    { s with
      dirs := update s.dirs p dir
      lanes := update s.lanes lane (s.lanes lane ++ more)
      heldTotal := total' }.Inv cfg hand' := by
  have hheld := total_update dirHeld s.dirs hp dir
  have hqueued := queued_update cfg s hlane more
  have hattributed := attributed_update cfg s hlane more
  constructor
  · have hplaces : total dirHeld cfg.maxPeers (update s.dirs p dir) +
        (s.queued cfg + laneSlots more) + ↑s.handles + hand' =
        s.held cfg + s.queued cfg + ↑s.handles + hand := by
      apply add_right_cancel (b := dirHeld (s.dirs p))
      calc _ = (total dirHeld cfg.maxPeers (update s.dirs p dir) + dirHeld (s.dirs p)) +
              (laneSlots more + hand' + (s.queued cfg + ↑s.handles)) := by abel
        _ = total dirHeld cfg.maxPeers s.dirs + (dirHeld dir + laneSlots more + hand') +
              (s.queued cfg + ↑s.handles) := by
            rw [hheld]
            abel
        _ = _ := by
            rw [hslots, held]
            abel
    constructor
    · intro pool
      rw [h.balance.leases pool, ← hplaces]
      change _ = total dirHeld cfg.maxPeers (update s.dirs p dir) +
        total laneSlots cfg.laneCount (update s.lanes lane (s.lanes lane ++ more)) +
          ↑s.handles + hand'
      rw [hqueued]
    · exact h.balance.sound
  · exact h.fits
  · have hcard := congrArg Multiset.card hheld
    rw [Multiset.card_add, Multiset.card_add] at hcard
    have hcount := h.counted
    change total' = (total dirHeld cfg.maxPeers (update s.dirs p dir)).card +
      total laneAttributed cfg.laneCount (update s.lanes lane (s.lanes lane ++ more))
    rw [hattributed]
    unfold held at hcount
    omega
  · exact all_update (P := fun dir : List InDirEntry => ∀ e ∈ dir, e.assoc.Shaped) hshape h.shaped p

variable {i : ℕ} {e : InDirEntry}

section
variable {env : Flow.DeliveryEnv} {seq : ℕ} {r : InAssociation × List Ready}

theorem dirHeld_deliver
    (he : dir[i]? = some e)
    (hshape : e.assoc.Shaped) (h : InAssociation.Delivers env e.assoc seq slot r) :
    dirHeld (dir.set i { e with assoc := r.1 }) + laneSlots (attributedTo p r.2) =
      dirHeld dir + (if e.assoc.pins r then {slot} else 0) := by
  have hslots := h.outcome.slots hshape h.core
  have hdir := dirHeld_set he { e with assoc := r.1 }
  apply add_right_cancel (b := (e.assoc.heldSlots : Multiset ℕ))
  rw [laneSlots_attributedTo, add_right_comm, hdir, add_assoc, hslots]
  abel

theorem card_dirHeld_deliver
    (he : dir[i]? = some e)
    (hshape : e.assoc.Shaped) (h : InAssociation.Delivers env e.assoc seq slot r) :
    (dirHeld (dir.set i { e with assoc := r.1 })).card + r.2.length =
      (dirHeld dir).card + (if e.assoc.pins r then 1 else 0) := by
  have hcard := congrArg Multiset.card (dirHeld_deliver (p := 0) he hshape h)
  rw [Multiset.card_add, Multiset.card_add, card_laneSlots, attributedTo, List.length_map] at hcard
  rw [hcard]
  split_ifs <;> rfl

end

theorem Inv.deliver (h : s.Inv cfg {slot}) (laneCapacity : ℕ) (m : FlowPacket)
    (hp : m.peerSlot < cfg.maxPeers) (i epoch : ℕ) :
    (s.deliver cfg laneCapacity m slot i epoch).Inv cfg 0 := by
  unfold Receiver.deliver
  cases he : (s.dirs m.peerSlot)[i]? with
  | none => exact Inv.dropSlot (by simpa using h)
  | some e =>
    have hshape : e.assoc.Shaped := h.shaped m.peerSlot e (List.mem_of_getElem? he)
    dsimp only
    generalize hr : e.assoc.deliverIn (s.deliveryEnv cfg laneCapacity m.peerSlot) m.flowId epoch
      m.seq slot = r
    have hdelivers := InAssociation.deliverIn_delivers (s.deliveryEnv cfg laneCapacity m.peerSlot)
      e.assoc hshape m.flowId epoch m.seq slot
    rw [hr] at hdelivers
    have hmoved := dirHeld_deliver (p := m.peerSlot) he hshape hdelivers
    have hcard := card_dirHeld_deliver he hshape hdelivers
    rw [← laneAttributed_attributedTo m.peerSlot] at hcard
    have hset := shaped_set (h.shaped m.peerSlot) (e := { e with assoc := r.1 })
      (hdelivers.outcome.shaped hshape hdelivers.core) i
    have hlt := h.heldTotal_lt
    have hroom : s.heldTotal + 1 ≤ cfg.poolCapacity := by
      have hbound := h.card_le
      have hle := attributed_le cfg s
      have hcount := h.counted
      rw [Multiset.card_singleton] at hbound
      omega
    have hcap := poolCapacity_lt cfg
    by_cases hpins : e.assoc.pins r = true
    · rw [if_pos hpins] at hmoved hcard ⊢
      have hplaced := h.place (u32 (s.heldTotal + 1)) 0 hp (cfg.laneOf_lt m.peerSlot)
        (by rw [hmoved, add_zero]) (by
          rw [u32, Nat.mod_eq_of_lt (by omega)]
          omega) hset
      exact { hplaced with }
    · rw [if_neg hpins] at hmoved hcard ⊢
      have hplaced := h.place s.heldTotal {slot} hp (cfg.laneOf_lt m.peerSlot)
        (by rw [hmoved, add_zero]) (by omega) hset
      apply Inv.dropSlot
      rw [zero_add]
      exact { hplaced with }

theorem Inv.flowPacket (h : s.Inv cfg {slot}) (laneCapacity : ℕ) (m : FlowPacket)
    (hp : m.peerSlot < cfg.maxPeers) (acquired : Option InAssociation) (recorded : Bool) :
    (s.flowPacket cfg laneCapacity m slot acquired recorded).Inv cfg 0 := by
  unfold Receiver.flowPacket
  have hentered := h.admitPacket laneCapacity m hp acquired recorded
  split_ifs with hfields
  · exact Inv.dropSlot (by simpa using h)
  · generalize s.admitPacket cfg laneCapacity m acquired recorded = a at hentered ⊢
    obtain ⟨s', _ | ⟨i, epoch⟩⟩ := a
    · exact Inv.dropSlot (by simpa using hentered)
    · exact hentered.deliver laneCapacity m hp i epoch

theorem Inv.plainPacket (h : s.Inv cfg {slot}) (laneCapacity key : ℕ) :
    (s.plainPacket cfg laneCapacity key slot).Inv cfg 0 := by
  unfold Receiver.plainPacket
  have hlane := cfg.laneOf_lt key
  generalize cfg.laneOf key = lane at hlane ⊢
  dsimp only
  split_ifs with hroom
  · have hqueued := queued_update cfg s hlane [⟨slot, none⟩]
    have hattributed := attributed_update cfg s hlane [⟨slot, none⟩]
    have hslot : laneSlots [⟨slot, none⟩] = {slot} := rfl
    have hnobody : laneAttributed [⟨slot, none⟩] = 0 := rfl
    rw [hslot] at hqueued
    rw [hnobody] at hattributed
    refine ⟨⟨?_, h.balance.sound⟩, h.fits, ?_, h.shaped⟩
    · intro pool
      rw [h.balance.leases pool]
      simp only [held, queued] at hqueued ⊢
      rw [hqueued]
      abel
    · have hcount := h.counted
      simp only [held, attributed] at hattributed hcount ⊢
      rw [hattributed, hcount]
      rfl
  · exact Inv.dropSlot (by simpa using h)

theorem Inv.handOver (h : s.Inv cfg hand) (hlane : lane < cfg.laneCount)
    {entry : ReadyEntry} {rest : List ReadyEntry} (hhead : s.lanes lane = entry :: rest) :
    ({ s with lanes := update s.lanes lane rest }.handOver entry).Inv cfg hand := by
  have hqueued : total laneSlots cfg.laneCount (update s.lanes lane rest) +
      {entry.slotIndex} = s.queued cfg :=
    total_tail hlane hhead (add_comm {entry.slotIndex} (laneSlots rest))
  have hattributed : total laneAttributed cfg.laneCount (update s.lanes lane rest) +
      (if entry.peerSlot.isSome then 1 else 0) = s.attributed cfg :=
    total_tail hlane hhead List.countP_cons
  have hbalance : s.pool.Balanced fun _ => s.held cfg +
      total laneSlots cfg.laneCount (update s.lanes lane rest) +
        ↑(entry.slotIndex :: s.handles) + hand := by
    constructor
    · intro pool
      rw [h.balance.leases pool, ← hqueued, ← Multiset.cons_coe, ← Multiset.singleton_add]
      abel
    · exact h.balance.sound
  have hcount := h.counted
  unfold Receiver.handOver
  cases hpeer : entry.peerSlot with
  | none =>
    rw [hpeer] at hattributed
    refine ⟨hbalance, h.fits, ?_, h.shaped⟩
    change s.heldTotal = (s.held cfg).card +
      total laneAttributed cfg.laneCount (update s.lanes lane rest)
    rw [hcount, ← hattributed]
    rfl
  | some p =>
    rw [hpeer, Option.isSome_some, if_pos rfl] at hattributed
    refine ⟨hbalance, h.fits, ?_, h.shaped⟩
    have hdown := u32_countDown h.heldTotal_lt (n := 1) (by omega)
    rw [Nat.one_mul] at hdown
    change u32 (s.heldTotal + (2 ^ 32 - 1)) = (s.held cfg).card +
      total laneAttributed cfg.laneCount (update s.lanes lane rest)
    omega

theorem Inv.poll (h : s.Inv cfg hand) (hlane : lane < cfg.laneCount) (max : ℕ) :
    (s.poll lane max).Inv cfg hand := by
  induction max generalizing s with
  | zero => exact h
  | succ max ih =>
    rw [Receiver.poll]
    cases hhead : s.lanes lane with
    | nil => exact h
    | cons entry rest => exact ih (h.handOver hlane hhead)

theorem Inv.releaseHandle (h : s.Inv cfg 0) (i : ℕ) : (s.releaseHandle i).Inv cfg 0 := by
  unfold Receiver.releaseHandle
  cases hi : s.handles[i]? with
  | none => exact h
  | some slot =>
    obtain ⟨hlt, hslot⟩ := List.getElem?_eq_some_iff.mp hi
    have hperm : (s.handles : Multiset ℕ) = ↑(s.handles.eraseIdx i) + {slot} := by
      rw [← hslot, add_comm, Multiset.singleton_add, Multiset.cons_coe, Multiset.coe_eq_coe]
      exact (List.getElem_cons_eraseIdx_perm hlt).symm
    have hhand : { s with handles := s.handles.eraseIdx i }.Inv cfg (0 + {slot}) := by
      refine { h with balance := ⟨?_, h.balance.sound⟩ }
      intro pool
      rw [h.balance.leases pool, hperm]
      change s.held cfg + s.queued cfg + (↑(s.handles.eraseIdx i) + {slot}) + 0 =
        s.held cfg + s.queued cfg + ↑(s.handles.eraseIdx i) + (0 + {slot})
      abel
    exact hhand.dropSlot

theorem Inv.setEntry (h : s.Inv cfg hand) (hp : p < cfg.maxPeers)
    (he : (s.dirs p)[i]? = some e) (assoc : InAssociation) (slots : List ℕ)
    (hslots : (assoc.heldSlots : Multiset ℕ) + slots = e.assoc.heldSlots) (hshape : assoc.Shaped) :
    { s.giveBack p slots with
      dirs := update s.dirs p ((s.dirs p).set i { e with assoc := assoc }) }.Inv cfg hand := by
  have hset := dirHeld_set he { e with assoc := assoc }
  apply h.giveBack hp
  · apply add_right_cancel (b := (e.assoc.heldSlots : Multiset ℕ))
    rw [add_right_comm, hset, add_assoc, hslots]
  · exact shaped_set (h.shaped p) hshape i

theorem reclaimJammed_slots (cfg : ReceiveConfig) (s : Receiver) (e : InDirEntry) :
    ((e.assoc.reclaimJammed cfg.limits.flowStallTimeout s.clock).1.heldSlots : Multiset ℕ) +
        (if e.assoc.inAssocJammed cfg.limits.flowStallTimeout s.clock then e.assoc.heldSlots
          else [] : List ℕ) = e.assoc.heldSlots := by
  rw [InAssociation.reclaimJammed]
  split_ifs
  · have hnone : ({ e.assoc.dropInHoldback.1.armAck s.clock with
        lastProgressMicros := s.clock } : InAssociation).heldSlots = [] :=
      InAssociation.dropInHoldback_heldSlots e.assoc
    rw [hnone]
    simp
  · simp

theorem Inv.reclaimEntry (h : s.Inv cfg hand) (hp : p < cfg.maxPeers) (i : ℕ) :
    (s.reclaimEntry cfg p i).Inv cfg hand := by
  unfold Receiver.reclaimEntry
  cases he : (s.dirs p)[i]? with
  | none => exact h
  | some e =>
    have hshape : e.assoc.Shaped := h.shaped p e (List.mem_of_getElem? he)
    exact h.setEntry hp he _ _ (reclaimJammed_slots cfg s e) (hshape.reclaimJammed _ _)

theorem Inv.reclaim (h : s.Inv cfg hand) (hp : p < cfg.maxPeers) :
    (s.reclaim cfg p).Inv cfg hand := by
  unfold Receiver.reclaim
  induction List.range (s.dirs p).length generalizing s with
  | nil => exact h
  | cons i rest ih => exact ih (h.reclaimEntry hp i)

theorem Inv.flushAck (h : s.Inv cfg hand) (hp : p < cfg.maxPeers) (i room : ℕ) :
    (s.flushAck p i room).Inv cfg hand := by
  unfold Receiver.flushAck
  cases he : (s.dirs p)[i]? with
  | none => exact h
  | some e =>
    have hshape : e.assoc.Shaped := h.shaped p e (List.mem_of_getElem? he)
    obtain ⟨hnext, hmode, hring, -, -, -, hcap⟩ :=
      InAssociation.takeAckEntry_frame e.assoc s.clock room
    have hheld := InAssociation.heldSlots_congr hcap hring
    have hinv := h.setEntry hp he (e.assoc.takeAckEntry s.clock room).1 []
      (by rw [hheld]; simp) ⟨by rw [hcap, hmode, hshape.cut], hnext ▸ hshape.pos, hnext ▸ hshape.lt⟩
    have htotal : u32 (s.heldTotal + 0 * (2 ^ 32 - 1)) = s.heldTotal := by
      rw [u32_countDown h.heldTotal_lt (Nat.zero_le _), Nat.sub_zero]
    exact { hinv with counted := htotal.symm.trans hinv.counted }

theorem Inv.sweepPeer (h : s.Inv cfg hand) (hp : p < cfg.maxPeers) (turns : ℕ) :
    (s.sweepPeer p turns).Inv cfg hand := by
  induction turns generalizing s with
  | zero => exact h
  | succ turns ih =>
    rw [Receiver.sweepPeer]
    cases hdir : s.dirs p with
    | nil => exact h
    | cons e rest =>
      apply ih
      apply h.giveBack hp
      · rw [hdir, dirHeld, dirHeld, List.map_cons, List.sum_cons, add_comm]
      · intro e' he'
        exact h.shaped p e' (by rw [hdir]; exact List.mem_cons_of_mem e he')

theorem Inv.stepWith (h : s.Inv cfg 0) (laneCapacity : ℕ) (e : Event) :
    (s.stepWith cfg laneCapacity e).Inv cfg 0 := by
  cases e with
  | flowPacket m slot acquired recorded =>
    rw [Receiver.stepWith]
    split_ifs with hguard
    · exact (h.lease hguard.1).flowPacket laneCapacity m hguard.2 acquired recorded
    · exact h
  | plainPacket key slot =>
    rw [Receiver.stepWith]
    split_ifs with hguard
    · exact (h.lease hguard).plainPacket laneCapacity key
    · exact h
  | poll lane max =>
    rw [Receiver.stepWith]
    split_ifs with hlane
    · exact h.poll hlane max
    · exact h
  | releaseHandle i => exact h.releaseHandle i
  | reclaim p =>
    rw [Receiver.stepWith]
    split_ifs with hp
    · exact h.reclaim hp
    · exact h
  | flushAck p i room =>
    rw [Receiver.stepWith]
    split_ifs with hp
    · exact h.flushAck hp i room
    · exact h
  | removePeer p =>
    rw [Receiver.stepWith]
    split_ifs with hp
    · exact h.sweepPeer hp _
    · exact h
  | seedPeer p recvGrant => exact { h with }
  | setGrant p slots => exact { h with }

theorem Inv.run (cfg : ReceiveConfig) (grants : ℕ → ℕ) (es : List (ℕ × Event)) :
    (run (Receiver.step cfg) (Receiver.start grants) es).Inv cfg 0 := by
  apply run_invariant (Receiver.step cfg) (Inv cfg 0) (fun _ _ => True)
  · intro s e _ h
    exact (h.tick _).stepWith _ _
  · exact Inv.start cfg grants
  · exact along_true _ _ _

/-! ## Lanes never fill -/

theorem length_le_queued (cfg : ReceiveConfig) (s : Receiver)
    (hlane : lane < cfg.laneCount) : (s.lanes lane).length ≤ (s.queued cfg).card := by
  rw [queued, total, Multiset.card_sum, ← card_laneSlots]
  exact Finset.single_le_sum (f := fun l => (laneSlots (s.lanes l)).card) (fun _ _ => Nat.zero_le _)
    (Finset.mem_range.mpr hlane)

theorem length_le_held (cfg : ReceiveConfig) (s : Receiver) (hp : p < cfg.maxPeers)
    (he : e ∈ s.dirs p) : e.assoc.heldSlots.length ≤ (s.held cfg).card := by
  have hdir : e.assoc.heldSlots.length ≤ (dirHeld (s.dirs p)).card := by
    obtain ⟨before, after, hsplit⟩ := List.append_of_mem he
    rw [hsplit]
    simp only [dirHeld, List.map_append, List.map_cons, List.sum_append, List.sum_cons,
      Multiset.card_add, Multiset.coe_card]
    omega
  apply hdir.trans
  rw [held, total, Multiset.card_sum]
  exact Finset.single_le_sum (f := fun q => (dirHeld (s.dirs q)).card) (fun _ _ => Nat.zero_le _)
    (Finset.mem_range.mpr hp)

/-- With a packet in hand, a lane has room for it and for everything held. -/
theorem Inv.lane_room (h : s.Inv cfg {slot}) (hlane : lane < cfg.laneCount) :
    (s.lanes lane).length + (s.held cfg).card < cfg.laneCapacity := by
  have hcard := h.card_le
  have hle := length_le_queued cfg s hlane
  rw [Multiset.card_singleton] at hcard
  change _ < cfg.poolCapacity
  omega

/-- A delivery with a packet in hand comes out as if its lane never filled. -/
theorem Inv.deliver_unbounded (h : s.Inv cfg {slot}) (hp : p < cfg.maxPeers) (he : e ∈ s.dirs p)
    {laneCapacity : ℕ} (hcap : cfg.laneCapacity ≤ laneCapacity) (flowId epoch seq : ℕ) :
    e.assoc.deliverIn (s.deliveryEnv cfg laneCapacity p) flowId epoch seq slot =
      e.assoc.deliverIn (s.deliveryEnv cfg cfg.laneCapacity p).unbounded flowId epoch seq slot := by
  have hroom := h.lane_room (cfg.laneOf_lt p)
  have hheld := length_le_held cfg s hp he
  apply InAssociation.deliverIn_unbounded _ _ (h.shaped p e he)
  intro k hk
  simp only [deliveryEnv, decide_eq_true_eq]
  omega

theorem Inv.step_unbounded (h : s.Inv cfg 0) {laneCapacity : ℕ}
    (hcap : cfg.laneCapacity ≤ laneCapacity) (e : Event) :
    s.stepWith cfg laneCapacity e = s.stepWith cfg cfg.laneCapacity e := by
  cases e with
  | flowPacket m slot acquired recorded =>
    rw [Receiver.stepWith, Receiver.stepWith]
    split_ifs with hguard
    · have hentered := (h.lease hguard.1).admitPacket cfg.laneCapacity m hguard.2 acquired recorded
      have hsame : (s.lease slot).admitPacket cfg laneCapacity m acquired recorded =
          (s.lease slot).admitPacket cfg cfg.laneCapacity m acquired recorded := rfl
      unfold Receiver.flowPacket
      rw [hsame]
      generalize (s.lease slot).admitPacket cfg cfg.laneCapacity m acquired recorded = a at hentered ⊢
      obtain ⟨s', _ | ⟨i, epoch⟩⟩ := a
      · rfl
      · dsimp only
        unfold Receiver.deliver
        cases he : (s'.dirs m.peerSlot)[i]? with
        | none => rfl
        | some entry =>
          have hmem := List.mem_of_getElem? he
          dsimp only
          rw [hentered.deliver_unbounded hguard.2 hmem hcap,
            hentered.deliver_unbounded hguard.2 hmem (Nat.le_refl _)]
    · rfl
  | plainPacket key slot =>
    rw [Receiver.stepWith, Receiver.stepWith]
    split_ifs with hguard
    · have hroom := (h.lease hguard).lane_room (cfg.laneOf_lt key)
      unfold Receiver.plainPacket
      rw [if_pos (by omega), if_pos (by omega)]
    · rfl
  | poll lane max => rfl
  | releaseHandle i => rfl
  | reclaim p => rfl
  | flushAck p i room => rfl
  | removePeer p => rfl
  | seedPeer p recvGrant => rfl
  | setGrant p slots => rfl

/-- After any run of receives, polls, reclaims, reopens and removals: the leased receive
slots are, each exactly once, the hold-back entries, the ready-lane entries and the handles
of the application; `heldTotal` counts the hold-back entries and the attributed lane entries;
a packet received into a free slot finds room in every lane for itself and everything held,
so that no step would come out differently with larger lanes. -/
theorem receive_slots_conserved (cfg : ReceiveConfig) (grants : ℕ → ℕ) (es : List (ℕ × Event)) :
    let s := run (step cfg) (start grants) es
    (s.pool.leased ()).val = s.held cfg + s.queued cfg + ↑s.handles ∧
    s.pool.faults = 0 ∧
    s.heldTotal = (s.held cfg).card + s.attributed cfg ∧
    (∀ slot, s.receivable cfg slot = true → ∀ lane < cfg.laneCount,
      (s.lanes lane).length + (s.held cfg).card < cfg.laneCapacity) ∧
    ∀ clock e laneCapacity, cfg.laneCapacity ≤ laneCapacity →
      { s with clock := clock }.stepWith cfg laneCapacity e =
        { s with clock := clock }.stepWith cfg cfg.laneCapacity e := by
  intro s
  have h : s.Inv cfg 0 := Inv.run cfg grants es
  refine ⟨?_, h.balance.sound, h.counted, ?_, ?_⟩
  · rw [h.balance.leases (), add_zero]
  · intro slot hfree lane hlane
    exact (h.lease hfree).lane_room hlane
  · intro clock e laneCapacity hcap
    exact (h.tick clock).step_unbounded hcap e

end Receiver

end BcpFlux.Socket
