import BcpFlux.Peer.Refinement
import BcpFlux.Transfer.Bounds

/-! # Slots and the arrays they index

The peer table and the transfer table of one socket, driven by registrations, removals,
event reads and transfer calls.  A peer slot indexes the replay blocks, the association and
transfer directories and the event rows, all sized by `maxPeers`; a transfer slot indexes
the ring storage of its direction.
-/

namespace BcpFlux.Socket
open Library Pool Peer Transfer Function IndexedTable

structure SlotConfig where
  maxPeers : ℕ
  /-- `outCount` or `inCount` of the flows is not zero; without flows there are no transfers. -/
  flows : Bool
  transferOutCount : ℕ
  transferInCount : ℕ
  maxTransferBytes : ℕ

/-- Rows of every array that a peer slot indexes. -/
structure PeerArrays where
  replayBlocks : ℕ
  outAssocRows : ℕ
  inAssocRows : ℕ
  outTransferRows : ℕ
  inTransferRows : ℕ
  peerEvents : ℕ

def SlotConfig.arrays (c : SlotConfig) : PeerArrays where
  replayBlocks := c.maxPeers
  outAssocRows := c.maxPeers
  inAssocRows := c.maxPeers
  outTransferRows := c.maxPeers
  inTransferRows := c.maxPeers
  peerEvents := c.maxPeers

def PeerArrays.Covers (a : PeerArrays) (slot : ℕ) : Prop :=
  slot < a.replayBlocks ∧ slot < a.outAssocRows ∧ slot < a.inAssocRows ∧
    slot < a.outTransferRows ∧ slot < a.inTransferRows ∧ slot < a.peerEvents

theorem covers_iff (c : SlotConfig) (slot : ℕ) : c.arrays.Covers slot ↔ slot < c.maxPeers := by
  simp [PeerArrays.Covers, SlotConfig.arrays]

/-- The peer a call is about. -/
def peerSlotOf : Table.Call → Option ℕ
  | .beginSend peerSlot .. | .onAnnounce peerSlot .. | .onData peerSlot .. | .allow peerSlot ..
  | .reject peerSlot .. | .complete peerSlot .. | .answer peerSlot .. | .onAck peerSlot ..
  | .onRefused peerSlot .. | .pass peerSlot .. | .sweepPeer peerSlot => some peerSlot
  | .drainFinished _ => none

structure Slots where
  peers : IndexedTable
  transfers : Table
  /-- Every slot `RegisterPeer` has handed out. -/
  returned : List ℕ

namespace Slots

/-- Transfers are set up together with flows and stay inert otherwise. -/
def initTransfers (c : SlotConfig) : Option Table :=
  if c.flows then
    Table.init c.transferOutCount c.transferInCount c.maxPeers c.maxTransferBytes
  else do
    let outbound ← Side.init 0 0 OutTransfer.blank
    let inbound ← Side.init 0 0 InTransfer.blank
    return ⟨0, outbound, inbound, [], [], []⟩

def init (c : SlotConfig) : Option Slots := do
  let peers ← IndexedTable.init c.maxPeers
  let transfers ← initTransfers c
  return ⟨peers, transfers, []⟩

inductive Event where
  | register (addr : Address) (id : Option BcpId) (hint : ℕ)
  | remove (addr : Address) (recorded : Bool)
  | removeById (id : BcpId)
  | bindId (slot : ℕ) (id : BcpId)
  | updateAddress (slot : ℕ) (addr : Address)
  | record (addr : Address)
  | read (slot : ℕ)
  | transfer (c : Table.Call)

section Steps
variable (addrHash : Address → ℕ)

/-- A call into the peer table.  Each one returns, as its refinement of the maps shows. -/
def call (s : Slots) (op : TableOp) : Slots :=
  match s.peers.apply addrHash op with
  | none => s
  | some (reply, peers) => { s with peers := peers, returned := s.returned ++ reply.slot.toList }

/-- An event is recorded in the row of its slot, if there is one. -/
def record (s : Slots) (slot : ℕ) (recorded : Bool) : Slots :=
  if recorded ∧ slot < s.peers.peerCapacity then s.call addrHash (.markEmitting slot) else s

/-- `Socket::RemovePeer`: the event, the sweep, the removal. -/
def remove (s : Slots) (addr : Address) (recorded : Bool) : Slots :=
  match s.peers.getPeer addrHash addr with
  | none => s
  | some slot =>
    { (s.record addrHash slot recorded).call addrHash (.removePeer addr) with
      transfers := s.transfers.sweepPeer slot }

/-- Transfer calls are made for peers the table knows. -/
def transfer (s : Slots) (c : Table.Call) : Slots :=
  if ∀ p ∈ peerSlotOf c, s.peers.getPeer addrHash (s.peers.peers p).addr = some p then
    { s with transfers := s.transfers.call c }
  else s

def step (s : Slots) : Event → Slots
  | .register addr id hint => s.call addrHash (.registerPeer addr id hint)
  | .remove addr recorded => s.remove addrHash addr recorded
  | .removeById id => s.call addrHash (.removePeerById id)
  | .bindId slot id => s.call addrHash (.bindId slot id)
  | .updateAddress slot addr => s.call addrHash (.updateAddress slot addr)
  | .record addr =>
    match s.peers.getPeer addrHash addr with
    | none => s
    | some slot => s.record addrHash slot true
  | .read slot => s.call addrHash (.clearEmitting slot)
  | .transfer c => s.transfer addrHash c

end Steps

/-- Every slot handed out so far is inside the arrays it indexes. -/
structure InRange (c : SlotConfig) (s : Slots) : Prop where
  peers : ∀ slot ∈ s.returned, c.arrays.Covers slot
  out : ∀ slot, s.transfers.outbound.acquired slot ≠ 0 → slot < c.transferOutCount
  inc : ∀ slot, s.transfers.inbound.acquired slot ≠ 0 → slot < c.transferInCount

/-- No pool rounds up the count it is given. -/
def Exact (c : SlotConfig) : Prop :=
  IsPow2 c.maxPeers ∧ (c.flows = true →
    (c.transferOutCount = 0 ∨ IsPow2 c.transferOutCount) ∧
      (c.transferInCount = 0 ∨ IsPow2 c.transferInCount))

/-! ## Bounds along a run -/

/-- Slots are indices of the pools, whose sizes never change. -/
structure Inv (addrHash : Address → ℕ) (outCap inCap peerCap : ℕ) (s : Slots) : Prop where
  peers : ∃ m, s.peers.Refines addrHash m
  returned : ∀ slot ∈ s.returned, slot < peerCap
  transfers : s.transfers.Bounded
  peerCap_eq : s.peers.peerPool.capacity = peerCap
  outCap_eq : s.transfers.outbound.pool.capacity = outCap
  inCap_eq : s.transfers.inbound.pool.capacity = inCap

variable {addrHash : Address → ℕ} {outCap inCap peerCap : ℕ} {s : Slots}

theorem Inv.transfers_keep (h : s.Inv addrHash outCap inCap peerCap) {transfers : Table}
    (hk : s.transfers.Keeps transfers) :
    { s with transfers := transfers }.Inv addrHash outCap inCap peerCap :=
  ⟨h.peers, h.returned, hk.bounded, h.peerCap_eq, hk.outbound.pool_capacity.trans h.outCap_eq,
    hk.inbound.pool_capacity.trans h.inCap_eq⟩

theorem Inv.call (h : s.Inv addrHash outCap inCap peerCap) (op : TableOp) :
    (s.call addrHash op).Inv addrHash outCap inCap peerCap := by
  obtain ⟨m, hm⟩ := h.peers
  obtain ⟨given, hgiven, t, hrun, hrefines, hlimits⟩ := hm.apply op
  have hcap : t.peerPool.capacity = s.peers.peerPool.capacity := congrArg Limits.slots hlimits
  rw [Slots.call, hrun]
  refine ⟨⟨_, hrefines⟩, ?_, h.transfers, hcap.trans h.peerCap_eq, h.outCap_eq, h.inCap_eq⟩
  intro slot hslot
  rcases List.mem_append.mp hslot with hold | hnew
  · exact h.returned slot hold
  · rw [(m.apply_settles _ given op).2 slot (Option.mem_toList.mp hnew)] at hgiven
    exact h.peerCap_eq ▸ hgiven.1

theorem call_transfers (s : Slots) (op : TableOp) : (s.call addrHash op).transfers = s.transfers := by
  rw [Slots.call]
  split <;> rfl

theorem Inv.record (h : s.Inv addrHash outCap inCap peerCap) (slot : ℕ) (recorded : Bool) :
    (s.record addrHash slot recorded).Inv addrHash outCap inCap peerCap ∧
      (s.record addrHash slot recorded).transfers = s.transfers := by
  rw [Slots.record]
  split
  · exact ⟨h.call _, s.call_transfers _⟩
  · exact ⟨h, rfl⟩

theorem Inv.step (h : s.Inv addrHash outCap inCap peerCap) (e : Event) :
    (s.step addrHash e).Inv addrHash outCap inCap peerCap := by
  cases e with
  | register | removeById | bindId | updateAddress | read => exact h.call _
  | remove addr recorded =>
    rw [Slots.step, Slots.remove]
    split
    · exact h
    · next slot _ =>
      obtain ⟨hrec, hsame⟩ := h.record slot recorded
      have hcalled := hrec.call (.removePeer addr)
      apply hcalled.transfers_keep
      rw [call_transfers, hsame]
      exact h.transfers.call (.sweepPeer slot)
  | record addr =>
    rw [Slots.step]
    split
    · exact h
    · exact (h.record _ true).1
  | transfer c =>
    rw [Slots.step, Slots.transfer]
    split
    · exact h.transfers_keep (h.transfers.call c)
    · exact h

/-! ## Reaching a slot

A peer that comes and goes turns one ring of the peer pool, and a transfer of its own turns
one ring of a transfer pool.  So every index below a rounded capacity comes up. -/

def visitor : Address := ⟨[127, 0, 0, 1], 0, 9000⟩

structure Deserted (addrHash : Address → ℕ) (t : IndexedTable) : Prop where
  nobody : ∃ m, t.Refines addrHash m ∧ m.byAddr = ∅
  capacity : t.peerCapacity ≠ 0

section Turning
variable {t : IndexedTable} {free : ℕ → List ℕ} {ring first : ℕ} {rest : List ℕ} {pool : SlotPool}

theorem Deserted.register (h : Deserted addrHash t) (hacq : t.peerPool.acquire ring = .index first pool) :
    ∃ here m, t.registerPeer addrHash visitor none ring = some (⟨.ok, some first⟩, here) ∧
      here.Refines addrHash m ∧ m.byAddr = (∅ : Finmap fun _ : Address => ℕ).insert visitor first ∧
      here.peerCapacity = t.peerCapacity ∧ here.peerPool = pool ∧
      here.peers first = bornWith visitor none := by
  obtain ⟨m, hm, hnobody⟩ := h.nobody
  have hroom : ¬ t.peerCapacity ≤ t.peerCount := by
    rw [hm.count, hnobody]
    exact fun hle => h.capacity (Nat.le_zero.mp hle)
  have hfind : t.findAddr addrHash visitor = some none := by
    rcases hm.findAddr_cases visitor with ⟨-, hfind⟩ | ⟨_, -, _, hlook, -⟩
    · exact hfind
    · rw [hnobody, Finmap.lookup_empty] at hlook
      cases hlook
  have hseat : t.registerPeer addrHash visitor none ring =
      t.seat addrHash visitor none (.index first pool) := by
    rw [registerPeer, if_neg (by decide), if_neg hroom, hfind, ← hacq]
    rfl
  obtain ⟨given, -, here, hrun, hrefines, hlimits⟩ := hm.registerPeer visitor none ring
  have hmaps : m.registerPeer t.limits visitor none given = m.seat visitor none given := by
    rw [Maps.registerPeer, if_neg (by decide), if_neg (by rw [← hm.count]; exact hroom), if_neg,
      if_neg (by simp)]
    rw [hnobody]
    exact Finmap.notMem_empty
  rw [hmaps] at hrun hrefines
  rw [hseat] at hrun ⊢
  obtain ⟨addrIdx, -, hborn⟩ := Option.bind_eq_some_iff.mp hrun
  cases given with
  | none => cases hborn
  | some slot =>
    cases hborn
    refine ⟨_, _, hrun, hrefines, by rw [← hnobody]; rfl, rfl, rfl, Function.update_self _ _ _⟩

theorem takeOut_release {t' : IndexedTable} {apos bpos : Option ℕ} {slot : ℕ} {reply : Reply}
    (h : t.takeOut apos bpos slot = some (reply, t')) (hquiet : (t.peers slot).emitting = false) :
    t.peerPool.release slot = some t'.peerPool := by
  simp only [takeOut, clearTagsLocked, drainAndFree,
    Option.bind_eq_bind, Option.bind_eq_some_iff, Option.map_eq_some_iff] at h
  obtain ⟨_, -, _, -, _, ⟨_, -, rfl⟩, freed, hfreed, heq⟩ := h
  rw [if_neg (by simp [hquiet]), Option.map_eq_some_iff] at hfreed
  obtain ⟨back, hback, rfl⟩ := hfreed
  cases heq
  exact hback

theorem remove_visitor {here : IndexedTable} {m : Maps} (hm : here.Refines addrHash m)
    (hvisitor : m.byAddr = (∅ : Finmap fun _ : Address => ℕ).insert visitor first)
    (hborn : here.peers first = bornWith visitor none) (hcap : here.peerCapacity ≠ 0) :
    ∃ gone, here.removePeer addrHash visitor = some (⟨.ok, none⟩, gone) ∧
      Deserted addrHash gone ∧ here.peerPool.release first = some gone.peerPool := by
  have hlook : m.byAddr.lookup visitor = some first := by rw [hvisitor, Finmap.lookup_insert]
  have hlive : m.Live first := ⟨visitor, hlook⟩
  obtain ⟨gone, hrun, hrefines, hlimits⟩ := hm.removePeer visitor
  rw [hlook] at hrun hrefines
  refine ⟨gone, hrun, ⟨⟨_, hrefines, ?_⟩, ?_⟩, ?_⟩
  · apply Finmap.ext_lookup
    intro a
    rw [Finmap.lookup_empty, Option.eq_none_iff_forall_ne_some]
    intro slot ha
    have hother := ((hm.seats.live_drop hlive).mp ⟨a, ha⟩).2
    have hold := hm.seats.lookup_drop hlive ha
    rw [hvisitor, HashIndex.lookup_insert_iff] at hold
    rcases hold with ⟨-, hsame⟩ | ⟨-, hnone⟩
    · exact hother hsame
    · rw [Finmap.lookup_empty] at hnone
      cases hnone
  · have hsame : gone.peerCapacity = here.peerCapacity := congrArg Limits.peers hlimits
    rwa [hsame]
  · have hquiet : (here.peers first).emitting = false := by rw [hborn]; rfl
    rcases hm.findAddr_cases visitor with ⟨hnone, -⟩ | ⟨pos, -, slot, hslot, hfind, hcell⟩
    · rw [hlook] at hnone
      cases hnone
    obtain rfl : slot = first := by rwa [hlook, Option.some.injEq, eq_comm] at hslot
    have hat : slotAt here.addrIdx pos = slot := by rw [slotAt, hcell]; rfl
    rw [removePeer, hfind, Option.bind_eq_bind, Option.bind_some] at hrun
    obtain ⟨bpos, -, htaken⟩ := Option.bind_eq_some_iff.mp hrun
    rw [hat] at htaken
    exact takeOut_release htaken hquiet

/-- The visitor comes in on a thread, is known under its slot, and leaves again. -/
structure Visit (addrHash : Address → ℕ) (s : Slots) (hint slot : ℕ) (here gone : IndexedTable) :
    Prop where
  comes : s.step addrHash (.register visitor none hint) =
    ⟨here, s.transfers, s.returned ++ [slot]⟩
  known : here.getPeer addrHash (here.peers slot).addr = some slot
  leaves : ∀ transfers returned, step addrHash ⟨here, transfers, returned⟩ (.remove visitor false) =
    ⟨gone, transfers.sweepPeer slot, returned⟩

theorem Deserted.visit (h : Deserted addrHash s.peers) (hfree : s.peers.peerPool.Free free)
    (hring : ring < s.peers.peerPool.shardCount) (hq : free ring = first :: rest) :
    ∃ here gone, Visit addrHash s ring first here gone ∧ Deserted addrHash gone ∧
      gone.peerPool.shardCount = s.peers.peerPool.shardCount ∧
      gone.peerPool.Free (update free ring (rest ++ [first])) := by
  obtain ⟨taken, back, hacq, hrel, -, hshards, hback⟩ := hfree.turn hring hq
  obtain ⟨here, m, hcome, hm, hvisitor, hcap, rfl, hborn⟩ := h.register hacq
  obtain ⟨gone, hleave, hdeserted, hrel'⟩ := remove_visitor hm hvisitor hborn (hcap ▸ h.capacity)
  have hlook : here.getPeer addrHash visitor = some first := by
    rw [hm.getPeer, hvisitor, Finmap.lookup_insert]
  obtain rfl : back = gone.peerPool := Option.some.inj (hrel.symm.trans hrel')
  refine ⟨here, gone, ⟨?_, ?_, fun transfers returned => ?_⟩, hdeserted, hshards, hback⟩
  · rw [step, call, apply, hcome]
    rfl
  · rw [hborn]
    exact hlook
  · rw [step, remove, hlook]
    simp [record, call, apply, hleave]

end Turning

/-- Visits that start at one ring hand out its free indices one after the other. -/
theorem reach_peer {ring slot : ℕ} {pre rest : List ℕ} {free : ℕ → List ℕ} {s : Slots}
    (h : Deserted addrHash s.peers) (hfree : s.peers.peerPool.Free free)
    (hring : ring < s.peers.peerPool.shardCount) (hq : free ring = pre ++ slot :: rest) :
    ∃ events, slot ∈ (run (step addrHash) s events).returned := by
  induction pre generalizing s free rest with
  | nil =>
    obtain ⟨here, gone, hvisit, -⟩ := h.visit hfree hring hq
    refine ⟨[.register visitor none ring], ?_⟩
    rw [run_cons, run_nil, hvisit.comes]
    simp
  | cons first pre ih =>
    obtain ⟨here, gone, hvisit, hdeserted, hshards, hback⟩ := h.visit hfree hring hq
    have hq' : update free ring ((pre ++ slot :: rest) ++ [first]) ring =
        pre ++ slot :: (rest ++ [first]) := by simp
    obtain ⟨events, hmem⟩ := ih (s := ⟨gone, s.transfers.sweepPeer first, s.returned ++ [first]⟩)
      hdeserted hback (hshards ▸ hring) hq'
    refine ⟨.register visitor none ring :: .remove visitor false :: events, ?_⟩
    rwa [run_cons, run_cons, hvisit.comes, hvisit.leaves]

/-! The same for transfers: the visitor opens one, and its leaving sweeps it away. -/

def poolOf (t : Table) : Bool → SlotPool
  | true => t.inbound.pool
  | false => t.outbound.pool

def acquiredOf (t : Table) : Bool → ℕ → ℕ
  | true => t.inbound.acquired
  | false => t.outbound.acquired

def countOf (t : Table) : Bool → ℕ
  | true => t.inbound.count
  | false => t.outbound.count

def opening (peerSlot hint : ℕ) : Bool → Table.Call
  | true => .onAnnounce peerSlot visitor 0 1 transferStride hint
  | false => .beginSend peerSlot visitor 0 (some fun _ => 0) 1 hint

/-- No transfer is listed and peers below `maxPeers` are served. -/
structure Idle (maxPeers : ℕ) (t : Table) : Prop where
  outbound : t.outbound.Vacant
  inbound : t.inbound.Vacant
  out_peers : t.outbound.maxPeers = maxPeers
  in_peers : t.inbound.maxPeers = maxPeers
  bytes : t.maxTransferBytes ≠ 0

section Opening
variable {t : Table} {maxPeers peerSlot : ℕ} {free : ℕ → List ℕ} {ring first : ℕ} {rest : List ℕ}

theorem Idle.opens_out (h : Idle maxPeers t) (hcount : t.outbound.count ≠ 0)
    (hpeer : peerSlot < maxPeers) (hint : ℕ) :
    t.call (opening peerSlot hint false) =
      { t with outbound := (t.outbound.claim peerSlot 0
          (.start peerSlot visitor 0 (fun _ => 0) 1) hint).2 } := by
  have hbytes := h.bytes
  have hpeers := h.out_peers
  have hfind := h.outbound.find_eq_none peerSlot 0
  rw [opening, Table.call, Table.beginSend, if_neg hcount]
  rw [if_neg Nat.one_ne_zero, if_neg (by omega), if_neg (by omega), if_neg (by decide), hfind,
    if_neg (by simp), if_neg (by decide)]

theorem Idle.opens_in (h : Idle maxPeers t) (hcount : t.inbound.count ≠ 0)
    (hpeer : peerSlot < maxPeers) (hint : ℕ) :
    t.call (opening peerSlot hint true) =
      { t with inbound := (t.inbound.claim peerSlot 0
          (.announce peerSlot visitor 0 1) hint).2 } := by
  have hbytes := h.bytes
  have hpeers := h.in_peers
  have hfind := h.inbound.find_eq_none peerSlot 0
  rw [opening, Table.call, Table.onAnnounce, if_neg hcount, if_neg (by omega), if_neg (by simp),
    if_neg Nat.one_ne_zero, if_neg (by omega), hfind, if_neg (by simp)]

/-- A transfer opened and swept away turns a ring of its direction. -/
theorem Idle.turn (h : Idle maxPeers t) (d : Bool) (hcount : countOf t d ≠ 0)
    (hfree : (poolOf t d).Free free) (hring : ring < (poolOf t d).shardCount)
    (hq : free ring = first :: rest) (hpeer : peerSlot < maxPeers) :
    acquiredOf (t.call (opening peerSlot ring d)) d first ≠ 0 ∧
      Idle maxPeers ((t.call (opening peerSlot ring d)).sweepPeer peerSlot) ∧
      countOf ((t.call (opening peerSlot ring d)).sweepPeer peerSlot) d = countOf t d ∧
      (poolOf ((t.call (opening peerSlot ring d)).sweepPeer peerSlot) d).shardCount =
        (poolOf t d).shardCount ∧
      (poolOf ((t.call (opening peerSlot ring d)).sweepPeer peerSlot) d).Free
        (update free ring (rest ++ [first])) := by
  cases d
  · obtain ⟨pool, hacq, hvacant, hpool, hsize, hpeers, hshards, hback⟩ :=
      h.outbound.turn hfree hring hq hcount (h.out_peers ▸ hpeer) 0
        (.start peerSlot visitor 0 (fun _ => 0) 1) OutTransfer.blank
    rw [← hpool] at hshards hback
    rw [h.opens_out hcount hpeer]
    refine ⟨hacq, ⟨hvacant, ?_, hpeers.trans h.out_peers, ?_, h.bytes⟩, hsize, hshards, hback⟩
    · rw [Table.sweepPeer]
      rw [h.inbound.sweep_eq]
      exact h.inbound
    · rw [Table.sweepPeer]
      rw [h.inbound.sweep_eq]
      exact h.in_peers
  · obtain ⟨pool, hacq, hvacant, hpool, hsize, hpeers, hshards, hback⟩ :=
      h.inbound.turn hfree hring hq hcount (h.in_peers ▸ hpeer) 0
        (.announce peerSlot visitor 0 1) InTransfer.blank
    rw [← hpool] at hshards hback
    rw [h.opens_in hcount hpeer]
    refine ⟨hacq, ⟨?_, hvacant, ?_, hpeers.trans h.in_peers, h.bytes⟩, hsize, hshards, hback⟩
    · rw [Table.sweepPeer]
      rw [h.outbound.sweep_eq]
      exact h.outbound
    · rw [Table.sweepPeer]
      rw [h.outbound.sweep_eq]
      exact h.out_peers

end Opening

theorem Visit.transfer {hint slot : ℕ} {here gone : IndexedTable}
    (h : Visit addrHash s hint slot here gone) (c : Table.Call) (hc : peerSlotOf c = some slot)
    (transfers : Table) (returned : List ℕ) :
    step addrHash ⟨here, transfers, returned⟩ (.transfer c) =
      ⟨here, transfers.call c, returned⟩ := by
  rw [step, Slots.transfer, if_pos]
  rw [hc]
  rintro p ⟨rfl⟩
  exact h.known

/-- Visits with a transfer hand out the free indices of a transfer ring one after the other. -/
theorem reach_transfer {maxPeers ring slot x : ℕ} {pre rest restP : List ℕ}
    {free freeP : ℕ → List ℕ} {s : Slots} (d : Bool) (h : Deserted addrHash s.peers)
    (hfreeP : s.peers.peerPool.Free freeP) (hx : freeP 0 = x :: restP)
    (hlt : ∀ i ∈ freeP 0, i < maxPeers) (hidle : Idle maxPeers s.transfers)
    (hcount : countOf s.transfers d ≠ 0) (hfree : (poolOf s.transfers d).Free free)
    (hring : ring < (poolOf s.transfers d).shardCount) (hq : free ring = pre ++ slot :: rest) :
    ∃ events, acquiredOf (run (step addrHash) s events).transfers d slot ≠ 0 := by
  induction pre generalizing s free freeP rest restP x with
  | nil =>
    obtain ⟨here, gone, hvisit, -⟩ := h.visit hfreeP hfreeP.shards.pos hx
    have hc : peerSlotOf (opening x ring d) = some x := by cases d <;> rfl
    refine ⟨[.register visitor none 0, .transfer (opening x ring d)], ?_⟩
    rw [run_cons, run_cons, run_nil, hvisit.comes, hvisit.transfer _ hc]
    exact (hidle.turn d hcount hfree hring hq (hlt x (hx ▸ List.mem_cons_self))).1
  | cons first pre ih =>
    obtain ⟨here, gone, hvisit, hdeserted, -, hbackP⟩ := h.visit hfreeP hfreeP.shards.pos hx
    have hc : peerSlotOf (opening x ring d) = some x := by cases d <;> rfl
    obtain ⟨-, hidle', hcount', hshards, hback⟩ :=
      hidle.turn d hcount hfree hring hq (hlt x (hx ▸ List.mem_cons_self))
    have hq' : update free ring ((pre ++ slot :: rest) ++ [first]) ring =
        pre ++ slot :: (rest ++ [first]) := by simp
    obtain ⟨y, restY, hy⟩ := List.exists_cons_of_ne_nil
      (show update freeP 0 (restP ++ [x]) 0 ≠ [] by simp)
    have hlt' : ∀ i ∈ update freeP 0 (restP ++ [x]) 0, i < maxPeers := by
      intro i hi
      apply hlt i
      rw [hx]
      simpa [or_comm] using hi
    obtain ⟨events, hacq⟩ := ih
      (s := ⟨gone, (s.transfers.call (opening x ring d)).sweepPeer x, s.returned ++ [x]⟩)
      hdeserted hbackP hy hlt' hidle' (hcount' ▸ hcount) hback (hshards ▸ hring) hq'
    refine ⟨.register visitor none 0 :: .transfer (opening x ring d) :: .remove visitor false :: events,
      ?_⟩
    rwa [run_cons, run_cons, run_cons, hvisit.comes, hvisit.transfer _ hc, hvisit.leaves]

/-! ## Exactly the counts that are powers of two -/

theorem peers_init (addrHash : Address → ℕ) {maxPeers : ℕ} {t : IndexedTable}
    (h : IndexedTable.init maxPeers = some t) :
    SlotPool.init maxPeers = some t.peerPool ∧ maxPeers < 2 ^ 32 ∧ Deserted addrHash t := by
  obtain ⟨hrefines, hcap⟩ := IndexedTable.refines_init addrHash h
  unfold IndexedTable.init at h
  split_ifs at h with hzero hneed
  obtain ⟨pool, hpool, rfl⟩ := Option.map_eq_some_iff.mp h
  refine ⟨hpool, ?_, ⟨_, hrefines, rfl⟩, hzero⟩
  unfold IndexedTable.need maxLoadPercent at hneed
  omega

theorem transfers_init {c : SlotConfig} {t : Table} (h : initTransfers c = some t) :
    ∃ outCount inCount maxPeers, Side.init outCount maxPeers OutTransfer.blank = some t.outbound ∧
      Side.init inCount maxPeers InTransfer.blank = some t.inbound ∧ t.finished = [] ∧
      (c.flows = true → outCount = c.transferOutCount ∧ inCount = c.transferInCount ∧
        maxPeers = c.maxPeers ∧ t.maxTransferBytes ≠ 0) ∧
      (c.flows = false → outCount = 0 ∧ inCount = 0) := by
  unfold initTransfers at h
  split at h
  · next hflows =>
    unfold Table.init at h
    split at h
    · cases h
    simp only [Option.bind_eq_bind, Option.bind_eq_some_iff] at h
    obtain ⟨outbound, hout, inbound, hin, heq⟩ := h
    cases heq
    refine ⟨_, _, _, hout, hin, rfl, ?_, ?_⟩
    · intro _
      refine ⟨rfl, rfl, rfl, ?_⟩
      dsimp only
      split
      · assumption
      · decide
    · intro hoff
      rw [hflows] at hoff
      cases hoff
  · next hflows =>
    simp only [Option.bind_eq_bind, Option.bind_eq_some_iff] at h
    obtain ⟨outbound, hout, inbound, hin, heq⟩ := h
    cases heq
    exact ⟨0, 0, 0, hout, hin, rfl, fun hon => absurd hon hflows, fun _ => ⟨rfl, rfl⟩⟩

theorem init_cases {c : SlotConfig} (h : init c = some s) :
    IndexedTable.init c.maxPeers = some s.peers ∧ initTransfers c = some s.transfers ∧
      s.returned = [] := by
  simp only [init, Option.bind_eq_bind, Option.bind_eq_some_iff] at h
  obtain ⟨peers, hpeers, transfers, htransfers, heq⟩ := h
  cases heq
  exact ⟨hpeers, htransfers, rfl⟩

theorem capacity_eq_of_isPow2 {count : ℕ} {pool : SlotPool} (hpow : IsPow2 count)
    (hlt : count < 2 ^ 32) (h : SlotPool.init count = some pool) : pool.capacity = count := by
  rw [(SlotPool.init_spec hlt h).1,
    nextPowerOfTwo_of_isPow2 hpow (SplitUse.le_of_isPow2 hpow hlt)]

section Main
variable {c : SlotConfig}

theorem side_exact {ρ : Type} {side : Transfer.Side ρ} {blank : ρ} {count maxPeers : ℕ}
    (h : Transfer.Side.init count maxPeers blank = some side) (hlt : count < 2 ^ 32)
    (hexact : count = 0 ∨ IsPow2 count) : side.pool.capacity = count := by
  have hbounded := Transfer.Side.bounded_init hlt h
  obtain ⟨hcount, -, -, hpool⟩ := Transfer.Side.init_facts h
  rcases hexact with hzero | hpow
  · rw [hbounded.unused (hcount.trans hzero), hzero]
  · exact capacity_eq_of_isPow2 hpow hlt (hpool hpow.pos.ne')

theorem in_range_of_exact (hout : c.transferOutCount < 2 ^ 32) (hin : c.transferInCount < 2 ^ 32)
    (hinit : init c = some s) (hexact : Exact c) (events : List Event) :
    InRange c (run (step addrHash) s events) := by
  obtain ⟨hpeers, htransfers, hreturned⟩ := init_cases hinit
  obtain ⟨hpool, hlt, hdeserted⟩ := peers_init addrHash hpeers
  obtain ⟨outCount, inCount, maxPeers, hsout, hsin, hqueue, hon, hoff⟩ := transfers_init htransfers
  -- without flows the counts of the table are zero whatever the configuration asked for
  have hcounts : (outCount = 0 ∨ IsPow2 outCount) ∧ (inCount = 0 ∨ IsPow2 inCount) ∧
      outCount ≤ c.transferOutCount ∧ inCount ≤ c.transferInCount := by
    cases hflows : c.flows
    · obtain ⟨rfl, rfl⟩ := hoff hflows
      exact ⟨.inl rfl, .inl rfl, Nat.zero_le _, Nat.zero_le _⟩
    · obtain ⟨rfl, rfl, -, -⟩ := hon hflows
      obtain ⟨hpout, hpin⟩ := hexact.2 hflows
      exact ⟨hpout, hpin, le_rfl, le_rfl⟩
  obtain ⟨hpout, hpin, hleout, hlein⟩ := hcounts
  have hinv : s.Inv addrHash outCount inCount c.maxPeers := by
    refine ⟨hdeserted.nobody.imp fun _ => And.left, ?_, ⟨?_, ?_, ?_⟩,
      capacity_eq_of_isPow2 hexact.1 hlt hpool, ?_, ?_⟩
    · rw [hreturned]
      simp
    · exact Side.bounded_init (by omega) hsout
    · exact Side.bounded_init (by omega) hsin
    · rw [hqueue]
      simp
    · exact side_exact hsout (by omega) hpout
    · exact side_exact hsin (by omega) hpin
  have hrun := run_invariant (step addrHash) (Inv addrHash outCount inCount c.maxPeers)
    (fun _ _ => True) (fun _ e _ h => h.step e) hinv (along_true (step addrHash) s events)
  constructor
  · intro slot hslot
    rw [covers_iff]
    exact hrun.returned slot hslot
  · intro slot hslot
    have := hrun.transfers.outbound.acquired slot hslot
    rw [hrun.outCap_eq] at this
    omega
  · intro slot hslot
    have := hrun.transfers.inbound.acquired slot hslot
    rw [hrun.inCap_eq] at this
    omega

theorem maxPeers_isPow2 (hinit : init c = some s)
    (hrange : ∀ events, InRange c (run (step addrHash) s events)) : IsPow2 c.maxPeers := by
  obtain ⟨hpeers, -⟩ := init_cases hinit
  obtain ⟨hpool, hlt, hdeserted⟩ := peers_init addrHash hpeers
  by_contra hpow
  obtain ⟨free, pre, rest, hfree, hq⟩ := SlotPool.init_queued hlt hpool
    (SlotPool.init_rounds_up hlt hpool hpow)
  obtain ⟨events, hmem⟩ := reach_peer hdeserted hfree (Nat.mod_lt _ hfree.shards.pos) hq
  have hcovers := (hrange events).peers _ hmem
  rw [covers_iff] at hcovers
  exact lt_irrefl _ hcovers

theorem reach_count (hinit : init c = some s) (hpow : IsPow2 c.maxPeers) (hflows : c.flows = true)
    (d : Bool) {count : ℕ} (hcount : countOf s.transfers d = count) (hne : count ≠ 0)
    (hlt : count < 2 ^ 32) (hpool : SlotPool.init count = some (poolOf s.transfers d))
    (hbad : ¬ IsPow2 count) :
    ∃ events, acquiredOf (run (step addrHash) s events).transfers d count ≠ 0 := by
  obtain ⟨hpeers, htransfers, -⟩ := init_cases hinit
  obtain ⟨hpoolP, hltP, hdeserted⟩ := peers_init addrHash hpeers
  obtain ⟨_, _, _, hsout, hsin, -, hon, -⟩ := transfers_init htransfers
  obtain ⟨rfl, rfl, rfl, hbytes⟩ := hon hflows
  have hidle : Idle c.maxPeers s.transfers :=
    ⟨(Side.init_facts hsout).2.2.1, (Side.init_facts hsin).2.2.1, (Side.init_facts hsout).2.1,
      (Side.init_facts hsin).2.1, hbytes⟩
  obtain ⟨free, pre, rest, hfree, hq⟩ := SlotPool.init_queued hlt hpool
    (SlotPool.init_rounds_up hlt hpool hbad)
  have hcapP := capacity_eq_of_isPow2 hpow hltP hpoolP
  obtain ⟨freeP, preP, restP, hfreeP, hqP⟩ := SlotPool.init_queued hltP hpoolP
    (hcapP ▸ hpow.pos)
  rw [Nat.zero_mod] at hqP
  obtain ⟨x, restX, hx⟩ := List.exists_cons_of_ne_nil (show freeP 0 ≠ [] by simp [hqP])
  have hltX : ∀ i ∈ freeP 0, i < c.maxPeers := by
    intro i hi
    rw [← hcapP]
    exact (hfreeP.home 0 hfreeP.shards.pos i hi).1
  exact reach_transfer d hdeserted hfreeP hx hltX hidle (hcount ▸ hne) hfree
    (Nat.mod_lt _ hfree.shards.pos) hq

/-- Over all runs the slots handed out stay inside the arrays they index exactly when no
pool rounds up its count, however the addresses hash. -/
theorem slots_in_range_iff (addrHash : Address → ℕ) (c : SlotConfig)
    (hout : c.transferOutCount < 2 ^ 32) (hin : c.transferInCount < 2 ^ 32) (s : Slots)
    (hinit : init c = some s) :
    (∀ events, InRange c (run (step addrHash) s events)) ↔ Exact c := by
  constructor
  · intro hrange
    have hpow := maxPeers_isPow2 hinit hrange
    refine ⟨hpow, fun hflows => ?_⟩
    obtain ⟨_, _, _, hsout, hsin, -, hon, -⟩ := transfers_init (init_cases hinit).2.1
    obtain ⟨rfl, rfl, rfl, -⟩ := hon hflows
    obtain ⟨hcout, -, -, hpout⟩ := Transfer.Side.init_facts hsout
    obtain ⟨hcin, -, -, hpin⟩ := Transfer.Side.init_facts hsin
    constructor
    · by_contra hbad
      obtain ⟨hne, hnot⟩ := not_or.mp hbad
      obtain ⟨events, hacq⟩ := reach_count hinit hpow hflows false hcout hne hout (hpout hne) hnot
      exact lt_irrefl _ ((hrange events).out _ hacq)
    · by_contra hbad
      obtain ⟨hne, hnot⟩ := not_or.mp hbad
      obtain ⟨events, hacq⟩ := reach_count hinit hpow hflows true hcin hne hin (hpin hne) hnot
      exact lt_irrefl _ ((hrange events).inc _ hacq)
  · exact fun hexact events => in_range_of_exact hout hin hinit hexact events

theorem slots_in_range_iff_sixteen : ∃ s, init ⟨16, true, 64, 0, 100⟩ = some s ∧
    ((∀ events, InRange ⟨16, true, 64, 0, 100⟩ (run (step fun _ => 0) s events)) ↔
      Exact ⟨16, true, 64, 0, 100⟩) := by
  have hsome : (init ⟨16, true, 64, 0, 100⟩).isSome := by decide +kernel
  obtain ⟨s, hs⟩ := Option.isSome_iff_exists.mp hsome
  exact ⟨s, hs, slots_in_range_iff (fun _ => 0) ⟨16, true, 64, 0, 100⟩ (by decide) (by decide) s hs⟩

def visits (slots : List ℕ) : List Event :=
  slots.flatMap fun slot =>
    [.register visitor none 0, .transfer (opening slot 0 false), .remove visitor false]

/-- 33 peers and 33 sends: the fourth visitor gets peer slot 48.  With 64 peers, so that the
calls are not refused for the peer slot, the fourth send gets transfer slot 48. -/
theorem rounded_pool_leaves_arrays :
    (init ⟨33, true, 33, 0, 100⟩).map (fun s =>
      (run (step fun _ => 0) s (visits [0, 16, 32, 48])).returned) = some [0, 16, 32, 48] ∧
    (init ⟨64, true, 33, 0, 100⟩).map (fun s =>
      (run (step fun _ => 0) s (visits [0, 16, 32, 48])).transfers.outbound.acquired 48) = some 1 := by
  decide +kernel

end Main

end Slots

end BcpFlux.Socket
