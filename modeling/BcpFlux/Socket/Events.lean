import BcpFlux.Basic
import BcpFlux.Library.Runs
import Mathlib.Data.Finset.Insert

/-! # Events and the slots they hold open

`EventTable` with the three kinds of slots its entries stand for: sending associations,
receiving associations and peers.  A slot whose entry holds an unread event stays leased
until the event has been read; the teardown leaves the release to `ClearEmitting` then.
A handler runs between the take of an entry and the `ClearEmitting` that follows.
-/

namespace BcpFlux.Socket
open Library

inductive SocketEvent where
  | incomingFlowOpened
  | outgoingFlowRefused
  | outgoingFlowLost
  | incomingFlowReopened
  | peerEstablished
  | peerLost
  | peerMigrated
  | peerGrantChanged
  | peerGrantCut
  | peerFlowJammed
  | transferIncoming
deriving DecidableEq, Repr

inductive EventScope where
  | outFlow
  | inFlow
  | peer
deriving DecidableEq, Repr

structure EventCell where
  /-- What has happened and has not been read. -/
  bits : Finset SocketEvent
  peer : Address
  entryFlowId : ℕ
  lane : ℕ
  /-- The lease under which the entry was written. -/
  entryLease : ℕ
  leased : Bool
  /-- Leases of the slot so far. -/
  leases : ℕ
  addr : Address
  /-- The addresses the tenant has moved away from. -/
  formerly : List Address
  flowId : ℕ
  emitting : Bool
  /-- `CLOSED`, or out of the indices of the peer table. -/
  closed : Bool
  /-- Peers only. -/
  freeWhenRead : Bool
  /-- Handlers that run for an event taken from this entry. -/
  handlers : ℕ
  /-- Releases of the slot while nobody leased it. -/
  strays : ℕ

namespace EventCell

def free : EventCell :=
  { bits := ∅, peer := ⟨[], 0, 0⟩, entryFlowId := 0, lane := 0, entryLease := 0
    leased := false, leases := 0, addr := ⟨[], 0, 0⟩, formerly := [], flowId := 0
    emitting := false, closed := true, freeWhenRead := false, handlers := 0, strays := 0 }

def release (c : EventCell) : EventCell :=
  if c.leased then { c with leased := false } else { c with strays := c.strays + 1 }

/-- A pool hands the slot to a new tenant, which writes every field of it. -/
def lease (c : EventCell) (addr : Address) (flowId : ℕ) : EventCell :=
  if c.leased then c
  else { c with
    leased := true
    leases := c.leases + 1
    addr := addr
    formerly := []
    flowId := flowId
    emitting := false
    closed := false
    freeWhenRead := false }

/-- `Record` on an entry that takes the event, and the mark on its slot.  An entry that
already holds something keeps the identity it was written with. -/
def record (c : EventCell) (event : SocketEvent) (lane flowId : ℕ) : EventCell :=
  if c.bits = ∅ then
    { c with
      bits := {event}
      peer := c.addr
      entryFlowId := flowId
      lane := lane
      entryLease := c.leases
      emitting := true }
  else { c with bits := insert event c.bits, emitting := true }

/-- Found in a directory or an index: leased, and not torn down. -/
def live (c : EventCell) : Bool := c.leased && !c.closed

/-- `UpdateAddress` reaches the tenant. -/
def migrate (c : EventCell) (addr : Address) : EventCell :=
  if c.live then { c with addr := addr, formerly := c.addr :: c.formerly } else c

/-- The take of `DispatchRow`; the handler runs next. -/
def take (c : EventCell) (lane : ℕ) : EventCell :=
  if c.bits ≠ ∅ ∧ c.lane = lane then { c with bits := ∅, handlers := c.handlers + 1 } else c

/-- `FreeAssoc` and the sweep of a receiving association. -/
def freeAssoc (c : EventCell) : EventCell :=
  let torn := { c with closed := true }
  if c.emitting then torn else torn.release

/-- `DrainAndFree`. -/
def drainAndFree (c : EventCell) : EventCell :=
  let torn := { c with closed := true }
  if c.emitting then { torn with freeWhenRead := true } else torn.release

def teardown (scope : EventScope) (c : EventCell) : EventCell :=
  if c.closed then c
  else match scope with
    | .peer => c.drainAndFree
    | .outFlow | .inFlow => c.freeAssoc

/-- `FlowTable::ClearEmitting`. -/
def clearEmittingFlow (c : EventCell) : EventCell :=
  let read := { c with emitting := false }
  if c.closed then read.release else read

/-- `PeerTable::ClearEmitting`. -/
def clearEmittingPeer (c : EventCell) : EventCell :=
  let read := { c with emitting := false, freeWhenRead := false }
  if c.freeWhenRead then read.release else read

/-- `OnEventDelivered`, once the handler has returned. -/
def delivered (scope : EventScope) (c : EventCell) : EventCell :=
  if c.handlers = 0 then c
  else
    let returned := { c with handlers := c.handlers - 1 }
    match scope with
    | .peer => returned.clearEmittingPeer
    | .outFlow | .inFlow => returned.clearEmittingFlow

end EventCell

structure EventTable where
  /-- The mask; an event outside it is not recorded. -/
  subscribed : SocketEvent → Bool
  rows : EventScope → ℕ
  laneCount : ℕ
  cells : EventScope → ℕ → EventCell

namespace EventTable

inductive Step where
  | lease (scope : EventScope) (slot : ℕ) (addr : Address) (flowId : ℕ)
  /-- An event about a live tenant; a transfer's id stands in for the flow id of a peer. -/
  | record (scope : EventScope) (slot lane : ℕ) (event : SocketEvent) (flowId : ℕ)
  | migrate (scope : EventScope) (slot : ℕ) (addr : Address)
  /-- A receiving association is reset for a newer generation, and that is recorded. -/
  | reopen (slot lane : ℕ)
  /-- `RemovePeer`, `CloseFlow` or a sweep reaches the tenant. -/
  | teardown (scope : EventScope) (slot : ℕ)
  | take (scope : EventScope) (slot lane : ℕ)
  | delivered (scope : EventScope) (slot : ℕ)

def accepts (t : EventTable) (scope : EventScope) (slot lane : ℕ) (event : SocketEvent) : Bool :=
  t.subscribed event && decide (lane < t.laneCount) && decide (slot < t.rows scope)

def recordIn (t : EventTable) (scope : EventScope) (slot lane : ℕ) (event : SocketEvent)
    (flowId : ℕ) (c : EventCell) : EventCell :=
  if t.accepts scope slot lane event
  then c.record event lane (if scope = .peer then flowId else c.flowId)
  else c

/-- `ResetInAssoc` on a live association, then the record of the reopening. -/
def reopenIn (t : EventTable) (slot lane : ℕ) (c : EventCell) : EventCell :=
  if c.live then
    t.recordIn .inFlow slot lane .incomingFlowReopened 0 { c with emitting := false }
  else c

def modify (t : EventTable) (scope : EventScope) (slot : ℕ) (f : EventCell → EventCell) :
    EventTable :=
  { t with
    cells := Function.update t.cells scope
      (Function.update (t.cells scope) slot (f (t.cells scope slot))) }

def step (t : EventTable) : Step → EventTable
  | .lease scope slot addr flowId => t.modify scope slot fun c => c.lease addr flowId
  | .record scope slot lane event flowId =>
    t.modify scope slot fun c =>
      if c.live then t.recordIn scope slot lane event flowId c else c
  | .migrate scope slot addr => t.modify scope slot fun c => c.migrate addr
  | .reopen slot lane => t.modify .inFlow slot (t.reopenIn slot lane)
  | .teardown scope slot => t.modify scope slot (EventCell.teardown scope)
  | .take scope slot lane => t.modify scope slot fun c => c.take lane
  | .delivered scope slot => t.modify scope slot (EventCell.delivered scope)

def init (subscribed : SocketEvent → Bool) (rows : EventScope → ℕ) (laneCount : ℕ) : EventTable :=
  ⟨subscribed, rows, laneCount, fun _ _ => .free⟩

end EventTable

/-! ## The lease of a slot with an unread event -/

namespace EventCell

/-- The entry was written about the tenant that leases the slot now: under this lease, with
an address the tenant has or had, and with its flow id. -/
def Names (scope : EventScope) (c : EventCell) : Prop :=
  c.entryLease = c.leases ∧ c.peer ∈ c.addr :: c.formerly ∧
    (scope ≠ .peer → c.entryFlowId = c.flowId)

/-- An unread event names the tenant of its slot; a slot is not taken from a tenant before
its teardown, is released by nobody else, and after the teardown waits for a reader only. -/
structure Kept (scope : EventScope) (c : EventCell) : Prop where
  named : c.bits ≠ ∅ → c.leased = true ∧ c.Names scope
  tenanted : c.closed = false → c.leased = true
  once : c.strays = 0
  owed : c.leased = true → c.closed = true → c.bits ≠ ∅ ∨ c.handlers ≠ 0

/-- What the steps keep: the flag is up exactly while an event is unread or being read. -/
structure Inv (scope : EventScope) (c : EventCell) : Prop where
  named : c.bits ≠ ∅ → c.Names scope
  marked : c.emitting = true ↔ c.bits ≠ ∅ ∨ c.handlers ≠ 0
  leased_of_emitting : c.emitting = true → c.leased = true
  reading : c.handlers ≠ 0 → c.handlers = 1 ∧ c.bits = ∅
  tenanted : c.closed = false → c.leased = true
  waiting : c.leased = true → c.closed = true → c.emitting = true
  flagged : scope = .peer → (c.freeWhenRead = true ↔ c.leased = true ∧ c.closed = true)
  once : c.strays = 0

variable {scope : EventScope} {c : EventCell}

theorem Inv.kept (h : c.Inv scope) : c.Kept scope where
  named := by
    intro hbits
    have hleased := h.leased_of_emitting (h.marked.mpr (Or.inl hbits))
    exact ⟨hleased, h.named hbits⟩
  tenanted := h.tenanted
  once := h.once
  owed := fun hleased hclosed => h.marked.mp (h.waiting hleased hclosed)

theorem inv_free (scope : EventScope) : free.Inv scope := by
  constructor <;> simp [free]

theorem Inv.lease (h : c.Inv scope) (addr : Address) (flowId : ℕ) :
    (c.lease addr flowId).Inv scope := by
  unfold EventCell.lease
  split
  · exact h
  · next hfree =>
    -- nothing is unread or being read about a slot nobody leases
    have hquiet : c.emitting = false := by
      rw [Bool.eq_false_iff]
      exact fun hemit => hfree (h.leased_of_emitting hemit)
    have hnone : ¬ (c.bits ≠ ∅ ∨ c.handlers ≠ 0) := by
      rw [← h.marked, hquiet]
      simp
    rw [not_or, not_not, not_not] at hnone
    constructor
    · exact fun hbits => absurd hnone.1 hbits
    · simp [hnone]
    · simp
    · exact fun hhandlers => absurd hnone.2 hhandlers
    · simp
    · simp
    · simp
    · exact h.once

theorem Inv.migrate (h : c.Inv scope) (addr : Address) : (c.migrate addr).Inv scope := by
  unfold EventCell.migrate
  split
  · constructor
    · intro hbits
      obtain ⟨hlease, hpeer, hflow⟩ := h.named hbits
      exact ⟨hlease, List.mem_cons_of_mem _ hpeer, hflow⟩
    · exact h.marked
    · exact h.leased_of_emitting
    · exact h.reading
    · exact h.tenanted
    · exact h.waiting
    · exact h.flagged
    · exact h.once
  · exact h

theorem Inv.record (h : c.Inv scope) (hlive : c.live = true) (hidle : c.handlers = 0)
    (event : SocketEvent) (lane : ℕ) {flowId : ℕ} (hflow : scope ≠ .peer → flowId = c.flowId) :
    (c.record event lane flowId).Inv scope := by
  rw [live, Bool.and_eq_true, Bool.not_eq_true'] at hlive
  unfold EventCell.record
  split
  · constructor
    · exact fun _ => ⟨rfl, List.mem_cons_self, hflow⟩
    · simp
    · exact fun _ => hlive.1
    · exact fun hhandlers => absurd hidle hhandlers
    · exact h.tenanted
    · simp
    · exact h.flagged
    · exact h.once
  · next hbits =>
    constructor
    · exact fun _ => h.named hbits
    · simp [Finset.insert_ne_empty]
    · exact fun _ => hlive.1
    · exact fun hhandlers => absurd hidle hhandlers
    · exact h.tenanted
    · simp
    · exact h.flagged
    · exact h.once

theorem Inv.take (h : c.Inv scope) (lane : ℕ) : (c.take lane).Inv scope := by
  unfold EventCell.take
  split
  · next hread =>
    have hidle : c.handlers = 0 := by
      by_contra hbusy
      exact hread.1 (h.reading hbusy).2
    have hemit : c.emitting = true := h.marked.mpr (Or.inl hread.1)
    constructor
    · exact fun hbits => absurd rfl hbits
    · simp [hemit]
    · exact h.leased_of_emitting
    · simp [hidle]
    · exact h.tenanted
    · exact h.waiting
    · exact h.flagged
    · exact h.once
  · exact h

theorem Inv.release_torn (h : c.Inv scope) (hopen : c.closed = false) (hquiet : c.emitting = false) :
    ({ c with closed := true } : EventCell).release.Inv scope := by
  have hleased := h.tenanted hopen
  have hfree : scope = .peer → c.freeWhenRead = false := by
    intro hscope
    rw [Bool.eq_false_iff, ne_eq, h.flagged hscope]
    simp [hopen]
  simp only [EventCell.release, hleased, if_true]
  constructor
  · exact h.named
  · exact h.marked
  · simp [hquiet]
  · exact h.reading
  · simp
  · simp
  · intro hscope
    simp [hfree hscope]
  · exact h.once

theorem Inv.freeAssoc (h : c.Inv scope) (hscope : scope ≠ .peer) (hopen : c.closed = false) :
    c.freeAssoc.Inv scope := by
  simp only [EventCell.freeAssoc]
  split
  · next hemit =>
    exact ⟨h.named, h.marked, h.leased_of_emitting, h.reading, by simp, fun _ _ => hemit,
      fun hpeer => absurd hpeer hscope, h.once⟩
  · next hquiet => exact h.release_torn hopen (by simpa using hquiet)

theorem Inv.drainAndFree (h : c.Inv .peer) (hopen : c.closed = false) :
    c.drainAndFree.Inv .peer := by
  simp only [EventCell.drainAndFree]
  split
  · next hemit =>
    exact ⟨h.named, h.marked, h.leased_of_emitting, h.reading, by simp, fun _ _ => hemit,
      by simp [h.tenanted hopen], h.once⟩
  · next hquiet => exact h.release_torn hopen (by simpa using hquiet)

theorem Inv.teardown (h : c.Inv scope) : (c.teardown scope).Inv scope := by
  unfold EventCell.teardown
  split
  · exact h
  · next hopen =>
    rw [Bool.not_eq_true] at hopen
    cases scope with
    | peer => exact h.drainAndFree hopen
    | outFlow => exact h.freeAssoc (by decide) hopen
    | inFlow => exact h.freeAssoc (by decide) hopen

/-- What is left once the handler of a slot has returned: the flag is down, and the slot is
released if its tenant went meanwhile. -/
theorem Inv.returned (h : c.Inv scope) (hbusy : c.handlers ≠ 0) {c' : EventCell}
    (hc : c' = { c with handlers := c.handlers - 1, emitting := false, leased := !c.closed
                        freeWhenRead := if scope = .peer then false else c.freeWhenRead }) :
    c'.Inv scope := by
  obtain ⟨hone, hread⟩ := h.reading hbusy
  subst hc
  constructor
  · exact fun hbits => absurd hread hbits
  · simp [hread, hone]
  · simp
  · simp [hone]
  · simp
  · simp
  · intro hscope
    simp [hscope]
  · exact h.once

theorem Inv.clearEmittingFlow (h : c.Inv scope) (hbusy : c.handlers ≠ 0) (hscope : scope ≠ .peer) :
    ({ c with handlers := c.handlers - 1 } : EventCell).clearEmittingFlow.Inv scope := by
  have hleased := h.leased_of_emitting (h.marked.mpr (Or.inr hbusy))
  apply h.returned hbusy
  simp only [EventCell.clearEmittingFlow, EventCell.release, hleased, if_true, if_neg hscope]
  cases c.closed <;> rfl

theorem Inv.clearEmittingPeer (h : c.Inv .peer) (hbusy : c.handlers ≠ 0) :
    ({ c with handlers := c.handlers - 1 } : EventCell).clearEmittingPeer.Inv .peer := by
  have hleased := h.leased_of_emitting (h.marked.mpr (Or.inr hbusy))
  have hflag : c.freeWhenRead = c.closed := by
    rw [Bool.eq_iff_iff, h.flagged rfl]
    simp [hleased]
  apply h.returned hbusy
  simp only [EventCell.clearEmittingPeer, EventCell.release, hleased, hflag, if_true]
  cases c.closed <;> rfl

theorem Inv.delivered (h : c.Inv scope) : (c.delivered scope).Inv scope := by
  unfold EventCell.delivered
  split
  · exact h
  · next hbusy =>
    cases scope with
    | peer => exact h.clearEmittingPeer hbusy
    | outFlow => exact h.clearEmittingFlow hbusy (by decide)
    | inFlow => exact h.clearEmittingFlow hbusy (by decide)

end EventCell

namespace EventTable

/-- Every entry with an unread event names the tenant its slot is leased to, and every
lease is given back once. -/
def Kept (t : EventTable) : Prop := ∀ scope slot, (t.cells scope slot).Kept scope

def Inv (t : EventTable) : Prop := ∀ scope slot, (t.cells scope slot).Inv scope

/-- No event is recorded about a slot while a handler runs for it, and a receiving
association is not reset past an unread event or a running handler, unless the reset is
recorded and so puts the flag up again. -/
def Quiet (t : EventTable) : Step → Prop
  | .record scope slot lane event _ =>
    t.accepts scope slot lane event = true → (t.cells scope slot).handlers = 0
  | .reopen slot lane =>
    (t.cells .inFlow slot).handlers = 0 ∧
      ((t.cells .inFlow slot).bits = ∅ ∨ t.accepts .inFlow slot lane .incomingFlowReopened = true)
  | _ => True

instance (t : EventTable) : DecidablePred t.Quiet
  | .record .. => inferInstanceAs (Decidable (_ → _))
  | .reopen .. => inferInstanceAs (Decidable (_ ∧ _))
  | .lease .. | .migrate .. | .teardown .. | .take .. | .delivered .. => instDecidableTrue

variable {t : EventTable}

theorem Inv.modify (h : t.Inv) {scope : EventScope} {slot : ℕ} {f : EventCell → EventCell}
    (hf : (f (t.cells scope slot)).Inv scope) : (t.modify scope slot f).Inv := by
  intro scope' slot'
  by_cases hscope : scope' = scope
  · subst hscope
    by_cases hslot : slot' = slot
    · subst hslot
      simpa [EventTable.modify] using hf
    · simpa [EventTable.modify, hslot] using h scope' slot'
  · simpa [EventTable.modify, hscope] using h scope' slot'

theorem Inv.recordIn (h : t.Inv) {scope : EventScope} {slot lane flowId : ℕ} {event : SocketEvent}
    (hlive : (t.cells scope slot).live = true)
    (hidle : t.accepts scope slot lane event = true → (t.cells scope slot).handlers = 0) :
    (t.recordIn scope slot lane event flowId (t.cells scope slot)).Inv scope := by
  unfold EventTable.recordIn
  split
  · next haccept =>
    apply (h scope slot).record hlive (hidle haccept)
    intro hscope
    rw [if_neg hscope]
  · exact h scope slot

/-- The reset of a live association takes its flag down; the invariant is back once the
flag is up again, or when there was nothing to flag. -/
theorem Inv.reopenIn (h : t.Inv) {slot lane : ℕ} (hidle : (t.cells .inFlow slot).handlers = 0)
    (hseen : (t.cells .inFlow slot).bits = ∅ ∨
      t.accepts .inFlow slot lane .incomingFlowReopened = true) :
    (t.reopenIn slot lane (t.cells .inFlow slot)).Inv .inFlow := by
  have hc := h .inFlow slot
  unfold EventTable.reopenIn
  split
  · next hlive =>
    unfold EventTable.recordIn
    split
    · -- the record writes the flag whatever it was
      have hrecord := hc.record hlive hidle .incomingFlowReopened lane (fun _ => rfl)
      simpa only [EventCell.record, reduceCtorEq, if_false] using hrecord
    · next hrefused =>
      have hread := hseen.resolve_right hrefused
      have hquiet : (t.cells .inFlow slot).emitting = false := by
        rw [Bool.eq_false_iff, ne_eq, hc.marked]
        simp [hread, hidle]
      rw [← hquiet]
      exact hc
  · exact hc

theorem step_inv (h : t.Inv) {e : Step} (hquiet : t.Quiet e) : (t.step e).Inv := by
  cases e with
  | lease scope slot addr flowId =>
    rw [step]
    apply h.modify
    exact (h scope slot).lease addr flowId
  | record scope slot lane event flowId =>
    apply h.modify
    split
    · next hlive => exact h.recordIn hlive hquiet
    · exact h scope slot
  | migrate scope slot addr =>
    apply h.modify
    exact (h scope slot).migrate addr
  | reopen slot lane => exact h.modify (h.reopenIn hquiet.1 hquiet.2)
  | teardown scope slot => exact h.modify (h scope slot).teardown
  | take scope slot lane =>
    apply h.modify
    exact (h scope slot).take lane
  | delivered scope slot => exact h.modify (h scope slot).delivered

theorem inv_init (subscribed : SocketEvent → Bool) (rows : EventScope → ℕ) (laneCount : ℕ) :
    (init subscribed rows laneCount).Inv :=
  fun scope _ => EventCell.inv_free scope

/-- In every run that records nothing about a slot whose handler is running and resets no
association past an unread event unrecorded, an unread event's slot stays leased to the
tenant the entry names, and every lease is given back exactly once. -/
theorem unread_slot_stays_leased (subscribed : SocketEvent → Bool) (rows : EventScope → ℕ)
    (laneCount : ℕ) (steps : List Step)
    (hquiet : Along step Quiet (init subscribed rows laneCount) steps) :
    (run step (init subscribed rows laneCount) steps).Kept := by
  have hinv : (run step (init subscribed rows laneCount) steps).Inv :=
    run_invariant step Inv Quiet (fun _ _ hq h => step_inv h hq)
      (inv_init subscribed rows laneCount) hquiet
  exact fun scope slot => (hinv scope slot).kept

/-- A peer is removed while the news of it is unread: the slot is kept for the reader, no
other peer gets it meanwhile, and the reader gives it back. -/
theorem unread_slot_stays_leased_removed_peer :
    let all : SocketEvent → Bool := fun _ => true
    let steps : List Step :=
      [.lease .peer 0 ⟨[1], 0, 9⟩ 0, .record .peer 0 0 .peerEstablished 0, .teardown .peer 0,
       .lease .peer 0 ⟨[2], 0, 9⟩ 0]
    let kept := run step (init all (fun _ => 4) 1) steps
    let read := run step kept [.take .peer 0 0, .delivered .peer 0]
    Along step Quiet (init all (fun _ => 4) 1) steps ∧ kept.Kept ∧
      (kept.cells .peer 0).addr = ⟨[1], 0, 9⟩ ∧ (kept.cells .peer 0).leased = true ∧
      (read.cells .peer 0).leased = false ∧ (read.cells .peer 0).strays = 0 :=
  ⟨by decide +kernel, unread_slot_stays_leased _ _ _ _ (by decide +kernel), by decide +kernel⟩

/-- Two ways a slot goes while its entry is unread.  The handler of a first event removes
the peer, and the removal's own event is recorded before the handler returns: the return
releases the slot, and the next peer on it is reported lost.  A receiving association is
reset with its opening unread by a socket that does not ask for reopenings: the teardown
finds the flag down and releases the slot, and the reader releases it again. -/
theorem unread_slot_changes_hands :
    let lost : SocketEvent → Bool := fun e => e == .peerEstablished || e == .peerLost
    let opened : SocketEvent → Bool := fun e => e == .incomingFlowOpened
    let removed := run step (init lost (fun _ => 4) 1)
      [.lease .peer 0 ⟨[1], 0, 9⟩ 0, .record .peer 0 0 .peerEstablished 0, .take .peer 0 0,
       .record .peer 0 0 .peerLost 0, .teardown .peer 0, .delivered .peer 0,
       .lease .peer 0 ⟨[2], 0, 9⟩ 0]
    let reset := run step (init opened (fun _ => 4) 1)
      [.lease .inFlow 0 ⟨[1], 0, 9⟩ 7, .record .inFlow 0 0 .incomingFlowOpened 7, .reopen 0 0,
       .teardown .inFlow 0]
    let read := run step reset [.take .inFlow 0 0, .delivered .inFlow 0]
    ((removed.cells .peer 0).bits = {.peerLost} ∧ (removed.cells .peer 0).leased = true ∧
      (removed.cells .peer 0).peer = ⟨[1], 0, 9⟩ ∧ (removed.cells .peer 0).addr = ⟨[2], 0, 9⟩ ∧
      (removed.cells .peer 0).formerly = []) ∧
    (reset.cells .inFlow 0).bits = {.incomingFlowOpened} ∧
    (reset.cells .inFlow 0).leased = false ∧ (read.cells .inFlow 0).strays = 1 := by
  decide +kernel

end EventTable

end BcpFlux.Socket
