import BcpFlux.Flow.NoLoss

/-! # The slots of packet bodies

A flow packet is built in a slot of one of two pools: staging for the modes that send
again, the kernel's send pool for unreliable flows.  From then on it is in the hand of
whoever carries the packet, in a cell of an in-flight ring, or in a waiting queue, and each
of those gives it back to a pool it works out for itself.
-/

namespace BcpFlux.Flow
open Library Peer

inductive BodyPool where
  | staging
  | send
deriving DecidableEq, Repr

/-- The pool a body is built in, and the one it waits in (`WaitPoolFor`). -/
def poolFor (mode : FlowMode) : BodyPool := if mode = .unreliable then .send else .staging

/-- A packet handle on its way through the send path. -/
structure Hand where
  pool : BodyPool
  slot : ℕ
  flowId : ℕ
deriving DecidableEq, Repr

/-- What a send finds besides the flow: the peer, the clock, the room for an association. -/
structure SendTerms where
  peerAddr : Address
  peerId : BcpId
  flowEpoch : UInt8
  waitingCap : ℕ
  oldEpoch : ℕ
  /-- The association pool and the peer's directory have a free entry. -/
  room : Bool
  budget : PeerBudget
  wireSize : ℕ
  flying : Bool
  now : ℕ

structure BodyTable where
  /-- The open flows. -/
  modes : ℕ → Option FlowMode
  assocs : List OutAssociation
  hands : Multiset Hand
  ledger : Ledger BodyPool ℕ

namespace OutAssociation

/-- What `DrainOutInflight` gives back, cell by cell. -/
def ringSlots (flow : OutAssociation) : List ℕ :=
  (List.range flow.inflightCap).flatMap fun i => (flow.inFlight i).packetSlot.toList

def waitingSlots (flow : OutAssociation) : List ℕ := flow.waiting.map WaitingEntry.packetSlot

/-- `DrainOutInflight` and `DrainOutWaiting`. -/
def giveBack (ledger : Ledger BodyPool ℕ) (flow : OutAssociation) : Ledger BodyPool ℕ :=
  (ledger.releaseAll .staging flow.ringSlots).releaseAll (poolFor flow.mode) flow.waitingSlots

end OutAssociation

namespace BodyTable

inductive Event where
  | openFlow (flowId : ℕ) (mode : FlowMode)
  | closeFlow (flowId : ℕ)
  /-- `AcquireFlowWriter`. -/
  | build (flowId slot : ℕ)
  /-- `SealOneBatch` copies the open batch of an association. -/
  | copyBatch (assoc slot : ℕ)
  /-- `FlushPending` copies a packet that was parked behind a handshake. -/
  | unpark (keepsBodyForResend : Bool) (flowId slot : ℕ)
  /-- The packet goes no further: copied into a batch, refused, or dropped by its caller. -/
  | discard (hand : Hand)
  | send (hand : Hand) (peerSlot : ℕ) (terms : SendTerms)
  | ack (assoc : ℕ) (rtt : RttEstimate) (ack : AckEntry) (now : ℕ)
  | tick (assoc : ℕ) (budget : PeerBudget) (now : ℕ)
  /-- Resends that never left. -/
  | refund (assoc : ℕ) (seqs : List ℕ)
  | drain (assoc : ℕ) (budget : PeerBudget) (candidateEpoch candidateSlot now : ℕ)
  | fail (assoc : ℕ)
  | removePeer (peerSlot : ℕ)

def acquire (t : BodyTable) (pool : BodyPool) (flowId slot : ℕ) : BodyTable :=
  if slot ∈ t.ledger.leased pool then t
  else { t with
    hands := ⟨pool, slot, flowId⟩ ::ₘ t.hands
    ledger := t.ledger.acquire pool slot }

def build (t : BodyTable) (flowId slot : ℕ) : BodyTable :=
  match t.modes flowId with
  | none => t
  | some mode => t.acquire (poolFor mode) flowId slot

def copyBatch (t : BodyTable) (assoc slot : ℕ) : BodyTable :=
  match t.assocs[assoc]? with
  | none => t
  | some flow => t.acquire (poolFor flow.mode) flow.flowId slot

def unpark (t : BodyTable) (keepsBodyForResend : Bool) (flowId slot : ℕ) : BodyTable :=
  t.acquire (if keepsBodyForResend then .staging else .send) flowId slot

/-- The handle is detached once a ring owns its slot, else it releases.  `PreProcessOut`
knows a body the in-flight ring keeps by the pool of its handle. -/
def keeps (verdict : SendAdmission) (pool : BodyPool) : Bool :=
  verdict = .queued || verdict = .sent && pool = .staging

def settle (t : BodyTable) (hand : Hand) (verdict : SendAdmission) : BodyTable :=
  { t with
    hands := t.hands.erase hand
    ledger := if keeps verdict hand.pool then t.ledger
      else t.ledger.release hand.pool hand.slot }

def discard (t : BodyTable) (hand : Hand) : BodyTable :=
  if hand ∈ t.hands then t.settle hand .dropped else t

def findOutAssoc (t : BodyTable) (peerSlot flowId : ℕ) : Option ℕ :=
  t.assocs.findIdx? fun flow => flow.peerSlot = peerSlot && flow.flowId = flowId

def createAssociation (t : BodyTable) (peerSlot flowId : ℕ) (terms : SendTerms) :
    Option OutAssociation :=
  if terms.room then
    (t.modes flowId).map fun mode =>
      resetOutAssoc terms.oldEpoch
        ⟨peerSlot, terms.peerAddr, terms.peerId, flowId, mode, terms.flowEpoch, terms.waitingCap⟩
        terms.now
  else none

def put (t : BodyTable) (assoc : ℕ) (flow : OutAssociation) (ledger : Ledger BodyPool ℕ) :
    BodyTable :=
  { t with assocs := t.assocs.set assoc flow, ledger := ledger }

/-- `AdmitOut` on an association, and what its caller does with the verdict. -/
def admitAt (t : BodyTable) (hand : Hand) (assoc : ℕ) (terms : SendTerms) : BodyTable :=
  match t.assocs[assoc]? with
  | none => t.settle hand .dead
  | some flow =>
    let r := flow.admitOut terms.budget hand.slot terms.wireSize terms.flying terms.now
    (t.put assoc r.2.1 (t.ledger.releaseAll .send r.2.2.2)).settle hand r.1

def send (t : BodyTable) (hand : Hand) (peerSlot : ℕ) (terms : SendTerms) : BodyTable :=
  if hand ∈ t.hands then
    match t.findOutAssoc peerSlot hand.flowId with
    | some assoc => t.admitAt hand assoc terms
    | none =>
      match t.createAssociation peerSlot hand.flowId terms with
      | none => t.settle hand .dead
      | some flow => { t with assocs := t.assocs ++ [flow] }.admitAt hand t.assocs.length terms
  else t

def onAssoc (t : BodyTable) (assoc : ℕ) (f : OutAssociation → OutAssociation × Ledger BodyPool ℕ) :
    BodyTable :=
  match t.assocs[assoc]? with
  | none => t
  | some flow => t.put assoc (f flow).1 (f flow).2

def ack (t : BodyTable) (timers : FlowTimers) (rtt : RttEstimate) (ack : AckEntry) (now : ℕ)
    (flow : OutAssociation) : OutAssociation × Ledger BodyPool ℕ :=
  let r := flow.applyAck timers rtt ack now .zero
  (r.1, t.ledger.releaseAll .staging r.2.2)

/-- `FailAssoc`. -/
def fail (t : BodyTable) (flow : OutAssociation) : OutAssociation × Ledger BodyPool ℕ :=
  if flow.life = .closed ∨ flow.life = .failed then (flow, t.ledger)
  else (flow.tearDown .failed, flow.giveBack t.ledger)

/-- `RetransmitPass`; an association that died of silence fails. -/
def tick (t : BodyTable) (timers : FlowTimers) (budget : PeerBudget) (now : ℕ)
    (flow : OutAssociation) : OutAssociation × Ledger BodyPool ℕ :=
  if flow.life = .opened then
    let r := flow.retransmitInflight timers budget now .zero
    if r.assocDead then t.fail flow
    else (r.flow, t.ledger.releaseAll .staging r.released)
  else (flow, t.ledger)

/-- A claim from the waiting queue; an unreliable body is its own wire packet, and its
handle releases it once sent. -/
def drain (t : BodyTable) (budget : PeerBudget) (candidateEpoch candidateSlot now : ℕ)
    (flow : OutAssociation) : OutAssociation × Ledger BodyPool ℕ :=
  let r := flow.claimWaiting budget candidateEpoch candidateSlot now
  (r.2.1, if r.1 && flow.mode = .unreliable then t.ledger.release .send candidateSlot
    else t.ledger)

def freeWhere (t : BodyTable) (reached : OutAssociation → Bool) : BodyTable :=
  { t with
    assocs := t.assocs.filter fun flow => !reached flow
    ledger := (t.assocs.filter reached).foldl OutAssociation.giveBack t.ledger }

def openFlow (t : BodyTable) (flowId : ℕ) (mode : FlowMode) : BodyTable :=
  if t.modes flowId = none then { t with modes := Function.update t.modes flowId (some mode) }
  else t

def closeFlow (t : BodyTable) (flowId : ℕ) : BodyTable :=
  { t.freeWhere (fun flow => flow.flowId = flowId) with
    modes := Function.update t.modes flowId none }

def step (timers : FlowTimers) (t : BodyTable) : Event → BodyTable
  | .openFlow flowId mode => t.openFlow flowId mode
  | .closeFlow flowId => t.closeFlow flowId
  | .build flowId slot => t.build flowId slot
  | .copyBatch assoc slot => t.copyBatch assoc slot
  | .unpark keepsBodyForResend flowId slot => t.unpark keepsBodyForResend flowId slot
  | .discard hand => t.discard hand
  | .send hand peerSlot terms => t.send hand peerSlot terms
  | .ack assoc rtt ack now => t.onAssoc assoc (t.ack timers rtt ack now)
  | .tick assoc budget now => t.onAssoc assoc (t.tick timers budget now)
  | .refund assoc seqs => t.onAssoc assoc fun flow => (flow.refundResendAttempts seqs, t.ledger)
  | .drain assoc budget candidateEpoch candidateSlot now =>
    t.onAssoc assoc (t.drain budget candidateEpoch candidateSlot now)
  | .fail assoc => t.onAssoc assoc t.fail
  | .removePeer peerSlot => t.freeWhere fun flow => flow.peerSlot = peerSlot

def init : BodyTable := ⟨fun _ => none, [], 0, ⟨fun _ => ∅, 0⟩⟩

end BodyTable

/-! ## What an association holds -/

namespace OutAssociation

def held (flow : OutAssociation) : BodyPool → Multiset ℕ :=
  Pi.single .staging flow.ringHeld + Pi.single (poolFor flow.mode) ↑flow.waitingSlots

/-- A free cell holds no slot. -/
structure Tidy (flow : OutAssociation) : Prop where
  cap : IsPow2 flow.inflightCap
  seq : flow.nextSeq ≠ 0
  cell : ∀ i, (flow.inFlight i).seq = 0 → (flow.inFlight i).packetSlot = none

variable {flow flow' : OutAssociation} {released : List ℕ}

theorem Walks.returns {ok : ℕ → Prop} {paid paid' : ℕ × ℕ}
    (h : Walks ok flow paid flow' paid' released) (htidy : flow.Tidy)
    (ledger : Ledger BodyPool ℕ) :
    flow'.Tidy ∧ ∀ rest, ledger.Balanced (rest + flow.held) →
      (ledger.releaseAll .staging released).Balanced (rest + flow'.held) := by
  constructor
  · refine ⟨h.same.cap ▸ htidy.cap, h.same.next ▸ htidy.seq, ?_⟩
    intro i hi
    rcases h.cell i with hs | ⟨hf, -⟩
    · rw [hs.2]
      exact htidy.cell i (hs.1 ▸ hi)
    · exact hf.2
  · intro rest hbalanced
    have hheld : flow.held = flow'.held + Pi.single .staging ↑released := by
      rw [OutAssociation.held, OutAssociation.held, ← h.held htidy.cap, h.same.mode, waitingSlots,
        waitingSlots, h.same.waiting, Pi.single_add]
      abel
    rw [hheld, ← add_assoc] at hbalanced
    exact hbalanced.releaseAll

/-! ## What a send hands over -/

def takes (mode : FlowMode) (verdict : SendAdmission) : Bool :=
  BodyTable.keeps verdict (poolFor mode)

theorem stamp_tidy (htidy : flow.Tidy) (peer : PeerBudget) (packetSlot : Option ℕ) (wireSize : ℕ)
    (flying : Bool) (now : ℕ) : (flow.stamp peer packetSlot wireSize flying now).1.Tidy where
  cap := htidy.cap
  seq := SenderSide.succSeq_ne_zero flow.nextSeq
  cell := by
    intro i
    simp only [stamp, put_apply]
    split
    · exact fun hseq => absurd hseq htidy.seq
    · exact htidy.cell i

theorem stamp_held (htidy : flow.Tidy)
    (hcell : (flow.inFlight (slot flow.inflightCap flow.nextSeq)).seq = 0) (peer : PeerBudget)
    (packetSlot : Option ℕ) (wireSize : ℕ) (flying : Bool) (now : ℕ) :
    (flow.stamp peer packetSlot wireSize flying now).1.held =
      flow.held + Pi.single .staging ↑packetSlot.toList := by
  have hput := contents_put (fun e : InFlightEntry => (e.packetSlot.toList : Multiset ℕ))
    flow.inFlight htidy.cap flow.nextSeq (flow.stampedEntry peer packetSlot wireSize flying now)
  rw [htidy.cell _ hcell] at hput
  have hring : (flow.stamp peer packetSlot wireSize flying now).1.ringHeld =
      flow.ringHeld + ↑packetSlot.toList := by
    simpa [ringHeld, stamp, stampedEntry] using hput
  rw [held, hring, Pi.single_add, held]
  abel

theorem enqueueWaiting_held (flow : OutAssociation) (packetSlot wireSize now : ℕ) :
    (flow.enqueueWaiting packetSlot wireSize now).held =
      flow.held + Pi.single (poolFor flow.mode) {packetSlot} := by
  have hwaiting : ((flow.enqueueWaiting packetSlot wireSize now).waitingSlots : Multiset ℕ) =
      ↑flow.waitingSlots + {packetSlot} := by
    rw [waitingSlots, enqueueWaiting, List.map_append, ← Multiset.coe_add]
    rfl
  rw [held, hwaiting, Pi.single_add, held]
  abel

theorem held_of_waiting_cons {head : WaitingEntry} {rest : List WaitingEntry}
    (hwaiting : flow.waiting = head :: rest) :
    flow.held = ({ flow with waiting := rest } : OutAssociation).held +
      Pi.single (poolFor flow.mode) {head.packetSlot} := by
  have hslots : (flow.waitingSlots : Multiset ℕ) =
      ↑(rest.map WaitingEntry.packetSlot) + {head.packetSlot} := by
    rw [waitingSlots, hwaiting, List.map_cons, ← Multiset.cons_coe, ← Multiset.singleton_add,
      add_comm]
  rw [held, hslots, Pi.single_add, held]
  simp only [waitingSlots, ringHeld]
  abel

theorem single_staging_stamped (mode : FlowMode) (packetSlot : ℕ) :
    Pi.single (M := fun _ => Multiset ℕ) BodyPool.staging
        ↑(if mode = .unreliable then none else some packetSlot).toList =
      if takes mode .sent then Pi.single (poolFor mode) {packetSlot} else 0 := by
  by_cases hmode : mode = .unreliable
  · simp [takes, BodyTable.keeps, poolFor, hmode]
  · simp [takes, BodyTable.keeps, poolFor, hmode]

theorem admitOut_tidy (htidy : flow.Tidy) (peer : PeerBudget) (packetSlot wireSize : ℕ)
    (flying : Bool) (now : ℕ) :
    (flow.admitOut peer packetSlot wireSize flying now).2.1.Tidy := by
  have hadmitted := flow.admitOut_admission peer packetSlot wireSize flying now
  generalize flow.admitOut peer packetSlot wireSize flying now = r at hadmitted ⊢
  cases hadmitted with
  | refused => exact htidy
  | stamped => exact stamp_tidy htidy _ _ _ _ _
  | queued | evicted => exact ⟨htidy.cap, htidy.seq, htidy.cell⟩

theorem admitOut_held (htidy : flow.Tidy) (peer : PeerBudget) (packetSlot wireSize : ℕ)
    (flying : Bool) (now : ℕ) :
    let r := flow.admitOut peer packetSlot wireSize flying now
    r.2.1.held + Pi.single .send ↑r.2.2.2 =
      flow.held + if takes flow.mode r.1 then Pi.single (poolFor flow.mode) {packetSlot} else 0 := by
  have hadmitted := flow.admitOut_admission peer packetSlot wireSize flying now
  dsimp only
  generalize flow.admitOut peer packetSlot wireSize flying now = r at hadmitted ⊢
  cases hadmitted with
  | refused verdict _ _ hsent hqueued =>
    have htakes : takes flow.mode verdict = false := by
      simp [takes, BodyTable.keeps, hsent, hqueued]
    rw [htakes]
    simp
  | stamped _ _ hroom =>
    rw [stamp_held htidy (canSend_cell hroom), single_staging_stamped]
    simp
  | queued =>
    rw [enqueueWaiting_held]
    simp [takes, BodyTable.keeps]
  | evicted _ _ _ _ hmode oldest rest hwaiting =>
    rw [enqueueWaiting_held, held_of_waiting_cons hwaiting]
    simp only [takes, BodyTable.keeps, decide_true, Bool.true_or, if_true, poolFor, hmode,
      Multiset.coe_singleton]
    abel

theorem claimWaiting_held (htidy : flow.Tidy) (peer : PeerBudget)
    (candidateEpoch candidateSlot now : ℕ) :
    let r := flow.claimWaiting peer candidateEpoch candidateSlot now
    r.2.1.Tidy ∧ flow.held = r.2.1.held +
      if r.1 && flow.mode = .unreliable then Pi.single .send {candidateSlot} else 0 := by
  have hclaim := flow.claimWaiting_claim peer candidateEpoch candidateSlot now
  generalize flow.claimWaiting peer candidateEpoch candidateSlot now = r at hclaim ⊢
  cases hclaim with
  | kept => exact ⟨htidy, by simp⟩
  | stamped head rest hwaiting hhead hroom =>
    have htidy' : ({ flow with waiting := rest } : OutAssociation).Tidy :=
      ⟨htidy.cap, htidy.seq, htidy.cell⟩
    refine ⟨stamp_tidy htidy' _ _ _ _ _, ?_⟩
    rw [stamp_held htidy' (canSend_cell hroom), held_of_waiting_cons hwaiting, hhead]
    by_cases hmode : flow.mode = .unreliable
    · simp [hmode, poolFor]
    · simp [hmode, poolFor]

/-! ## Teardown -/

theorem giveBack_balanced {ledger : Ledger BodyPool ℕ} {rest : BodyPool → Multiset ℕ}
    (h : ledger.Balanced (rest + flow.held)) : (flow.giveBack ledger).Balanced rest := by
  have hring : flow.ringHeld = ↑flow.ringSlots :=
    contents_eq_flatMap flow.inFlight (fun e => e.packetSlot.toList) flow.inflightCap
  have hsplit : rest + flow.held =
      rest + Pi.single (poolFor flow.mode) ↑flow.waitingSlots +
        Pi.single .staging ↑flow.ringSlots := by
    rw [held, hring]
    abel
  rw [hsplit] at h
  exact h.releaseAll.releaseAll

theorem tearDown_tidy (htidy : flow.Tidy) (life : FlowLifecycle) : (flow.tearDown life).Tidy :=
  ⟨htidy.cap, htidy.seq, fun _ _ => rfl⟩

theorem held_eq_zero (hring : ∀ i, (flow.inFlight i).packetSlot = none)
    (hwaiting : flow.waiting = []) : flow.held = 0 := by
  have hnone : flow.ringHeld = 0 := by
    rw [ringHeld, contents]
    apply Finset.sum_eq_zero
    intro i _
    rw [hring i]
    rfl
  rw [held, hnone, waitingSlots, hwaiting]
  simp

theorem tearDown_held (flow : OutAssociation) (life : FlowLifecycle) :
    (flow.tearDown life).held = 0 :=
  held_eq_zero (fun _ => rfl) rfl

theorem resetOutAssoc_tidy (oldEpoch : ℕ) (p : OutAssocParams) (now : ℕ) :
    (resetOutAssoc oldEpoch p now).Tidy where
  cap := InAssociation.windowFor_isPow2 p.mode
  seq := Nat.one_ne_zero
  cell := fun _ _ => rfl

theorem resetOutAssoc_held (oldEpoch : ℕ) (p : OutAssocParams) (now : ℕ) :
    (resetOutAssoc oldEpoch p now).held = 0 :=
  held_eq_zero (fun _ => rfl) rfl

end OutAssociation

/-! ## The table -/

namespace BodyTable
open OutAssociation

def handsHeld (hands : Multiset Hand) : BodyPool → Multiset ℕ :=
  (hands.map fun hand => Pi.single hand.pool {hand.slot}).sum

def assocsHeld (assocs : List OutAssociation) : BodyPool → Multiset ℕ :=
  (assocs.map held).sum

def held (t : BodyTable) : BodyPool → Multiset ℕ := handsHeld t.hands + assocsHeld t.assocs

/-- Slots in flight are leases of the staging pool, waiting ones of the pool of their mode;
every lease has exactly one holder, and no slot came back twice or to the wrong pool. -/
structure Settled (t : BodyTable) : Prop where
  inFlight : ∀ flow ∈ t.assocs, ∀ i < flow.inflightCap, ∀ slot,
    (flow.inFlight i).packetSlot = some slot → slot ∈ t.ledger.leased .staging
  waiting : ∀ flow ∈ t.assocs, ∀ w ∈ flow.waiting,
    w.packetSlot ∈ t.ledger.leased (poolFor flow.mode)
  inHand : ∀ hand ∈ t.hands, hand.slot ∈ t.ledger.leased hand.pool
  owned : ∀ pool, ∀ slot ∈ t.ledger.leased pool, (t.held pool).count slot = 1
  once : t.ledger.faults = 0

structure Inv (t : BodyTable) : Prop where
  tidy : ∀ flow ∈ t.assocs, flow.Tidy
  balanced : t.ledger.Balanced t.held

variable {t : BodyTable}

variable {hand : Hand}

theorem handsHeld_erase {hands : Multiset Hand} (h : hand ∈ hands) :
    handsHeld hands = handsHeld (hands.erase hand) + Pi.single hand.pool {hand.slot} := by
  rw [handsHeld, ← Multiset.cons_erase h, Multiset.map_cons, Multiset.sum_cons,
    Multiset.cons_erase h, handsHeld, add_comm]

variable {i : ℕ} {flow : OutAssociation}

theorem assocsHeld_set {assocs : List OutAssociation}
    (h : assocs[i]? = some flow) :
    ∃ rest, assocsHeld assocs = rest + flow.held ∧
      ∀ flow', assocsHeld (assocs.set i flow') = rest + flow'.held := by
  induction assocs generalizing i with
  | nil => simp at h
  | cons first others ih =>
    cases i with
    | zero =>
      simp only [List.getElem?_cons_zero, Option.some.injEq] at h
      subst h
      refine ⟨assocsHeld others, ?_, fun flow' => ?_⟩
      · simp [assocsHeld, add_comm]
      · simp [assocsHeld, add_comm]
    | succ i =>
      rw [List.getElem?_cons_succ] at h
      obtain ⟨rest, hbefore, hafter⟩ := ih h
      refine ⟨first.held + rest, ?_, fun flow' => ?_⟩
      · rw [add_assoc, ← hbefore]
        simp [assocsHeld]
      · rw [add_assoc, ← hafter flow']
        simp [assocsHeld]

theorem assocsHeld_filter (assocs : List OutAssociation) (reached : OutAssociation → Bool) :
    assocsHeld assocs = assocsHeld (assocs.filter fun flow => !reached flow) +
      assocsHeld (assocs.filter reached) := by
  induction assocs with
  | nil => simp [assocsHeld]
  | cons first others ih =>
    have hcons : assocsHeld (first :: others) = first.held + assocsHeld others := by
      simp [assocsHeld]
    rw [hcons, ih]
    cases hreached : reached first with
    | true =>
      simp only [List.filter_cons, hreached, Bool.not_true, Bool.false_eq_true, if_false, if_true,
        assocsHeld, List.map_cons, List.sum_cons]
      abel
    | false =>
      simp only [List.filter_cons, hreached, Bool.not_false, Bool.false_eq_true, if_false, if_true,
        assocsHeld, List.map_cons, List.sum_cons]
      abel

theorem mem_held_of_mem (hflow : flow ∈ t.assocs) {pool : BodyPool}
    {slot : ℕ} (h : slot ∈ flow.held pool) : slot ∈ t.held pool := by
  obtain ⟨i, hi⟩ := List.mem_iff_getElem?.mp hflow
  obtain ⟨rest, hrest, -⟩ := assocsHeld_set hi
  rw [held, hrest]
  simp only [Pi.add_apply, Multiset.mem_add]
  exact Or.inr (Or.inr h)

theorem Inv.settled (h : t.Inv) : t.Settled where
  inFlight := by
    intro flow hflow i hi slot hslot
    rw [h.balanced.mem_leased]
    apply mem_held_of_mem hflow
    rw [OutAssociation.held, Pi.add_apply, Pi.single_eq_same, Multiset.mem_add]
    refine Or.inl (Multiset.mem_sum.mpr ⟨i, Finset.mem_range.mpr hi, ?_⟩)
    simp [hslot]
  waiting := by
    intro flow hflow w hw
    rw [h.balanced.mem_leased]
    apply mem_held_of_mem hflow
    rw [OutAssociation.held, Pi.add_apply, Pi.single_eq_same, Multiset.mem_add]
    exact Or.inr (Multiset.mem_coe.mpr (List.mem_map.mpr ⟨w, hw, rfl⟩))
  inHand := by
    intro hand hhand
    rw [h.balanced.mem_leased, held, handsHeld_erase hhand]
    simp
  owned := fun _ _ hslot => h.balanced.count hslot
  once := h.balanced.sound

theorem inv_init : init.Inv where
  tidy := by simp [init]
  balanced := by
    constructor
    · intro pool
      simp [init, held, handsHeld, assocsHeld]
    · rfl

/-! ## The steps -/

theorem Inv.acquire (h : t.Inv) (pool : BodyPool) (flowId slot : ℕ) :
    (t.acquire pool flowId slot).Inv := by
  unfold BodyTable.acquire
  split
  · exact h
  · next hfree =>
    refine ⟨h.tidy, ?_⟩
    have hheld : ({ t with
        hands := ⟨pool, slot, flowId⟩ ::ₘ t.hands
        ledger := t.ledger.acquire pool slot } : BodyTable).held =
        t.held + Pi.single pool {slot} := by
      simp only [held, handsHeld, Multiset.map_cons, Multiset.sum_cons]
      abel
    rw [hheld]
    exact h.balanced.acquire hfree

theorem Inv.put (h : t.Inv) {flow' : OutAssociation} {ledger : Ledger BodyPool ℕ}
    (hi : t.assocs[i]? = some flow) (htidy : flow'.Tidy)
    (hledger : ∀ rest, t.ledger.Balanced (rest + flow.held) → ledger.Balanced (rest + flow'.held)) :
    (t.put i flow' ledger).Inv where
  tidy := by
    intro other hother
    rcases List.mem_or_eq_of_mem_set hother with hold | rfl
    · exact h.tidy other hold
    · exact htidy
  balanced := by
    obtain ⟨rest, hbefore, hafter⟩ := assocsHeld_set hi
    have hbalanced := h.balanced
    rw [held, hbefore, ← add_assoc] at hbalanced
    have hput : (t.put i flow' ledger).held = handsHeld t.hands + rest + flow'.held := by
      rw [held, BodyTable.put, hafter flow', add_assoc]
    rw [hput]
    exact hledger _ hbalanced

theorem Inv.onAssoc (h : t.Inv) {f : OutAssociation → OutAssociation × Ledger BodyPool ℕ}
    (hf : ∀ flow, flow.Tidy → (f flow).1.Tidy ∧ ∀ rest,
      t.ledger.Balanced (rest + flow.held) → (f flow).2.Balanced (rest + (f flow).1.held)) :
    (t.onAssoc i f).Inv := by
  unfold BodyTable.onAssoc
  split
  · exact h
  · next flow hi =>
    obtain ⟨htidy, hledger⟩ := hf flow (h.tidy flow (List.mem_of_getElem? hi))
    exact h.put hi htidy hledger

theorem fail_held (t : BodyTable) (htidy : flow.Tidy) :
    (t.fail flow).1.Tidy ∧ ∀ rest,
      t.ledger.Balanced (rest + flow.held) → (t.fail flow).2.Balanced (rest + (t.fail flow).1.held) := by
  unfold BodyTable.fail
  split
  · exact ⟨htidy, fun _ hbalanced => hbalanced⟩
  · refine ⟨tearDown_tidy htidy _, fun rest hbalanced => ?_⟩
    rw [tearDown_held, add_zero]
    exact giveBack_balanced hbalanced

theorem tick_held (t : BodyTable) (timers : FlowTimers) (budget : PeerBudget) (now : ℕ)
    (htidy : flow.Tidy) :
    (t.tick timers budget now flow).1.Tidy ∧ ∀ rest, t.ledger.Balanced (rest + flow.held) →
      (t.tick timers budget now flow).2.Balanced (rest + (t.tick timers budget now flow).1.held) := by
  unfold BodyTable.tick
  dsimp only
  split_ifs
  · exact t.fail_held htidy
  · exact (flow.retransmitInflight_walks timers budget now .zero).returns htidy t.ledger
  · exact ⟨htidy, fun _ hbalanced => hbalanced⟩

theorem drain_held (t : BodyTable) (budget : PeerBudget) (candidateEpoch candidateSlot now : ℕ)
    (htidy : flow.Tidy) :
    let r := t.drain budget candidateEpoch candidateSlot now flow
    r.1.Tidy ∧ ∀ rest, t.ledger.Balanced (rest + flow.held) → r.2.Balanced (rest + r.1.held) := by
  obtain ⟨htidy', hheld⟩ := claimWaiting_held htidy budget candidateEpoch
    candidateSlot now
  refine ⟨htidy', fun rest hbalanced => ?_⟩
  rw [hheld, ← add_assoc] at hbalanced
  unfold BodyTable.drain
  dsimp only
  split
  · next hclaimed =>
    rw [if_pos hclaimed] at hbalanced
    exact hbalanced.release
  · next hclaimed =>
    rw [if_neg hclaimed, add_zero] at hbalanced
    exact hbalanced

theorem Inv.freeWhere (h : t.Inv) (reached : OutAssociation → Bool) : (t.freeWhere reached).Inv where
  tidy := fun flow hflow => h.tidy flow (List.mem_of_mem_filter hflow)
  balanced := by
    have hbalanced := h.balanced
    rw [held, assocsHeld_filter t.assocs reached, ← add_assoc] at hbalanced
    -- the associations reached give back one after the other
    have hfold : ∀ (gone : List OutAssociation) (ledger : Ledger BodyPool ℕ)
        (rest : BodyPool → Multiset ℕ), ledger.Balanced (rest + assocsHeld gone) →
        (gone.foldl giveBack ledger).Balanced rest := by
      intro gone
      induction gone with
      | nil =>
        intro ledger rest hgone
        simpa [assocsHeld] using hgone
      | cons flow gone ih =>
        intro ledger rest hgone
        apply ih
        apply giveBack_balanced
        have hcons : rest + assocsHeld (flow :: gone) = rest + assocsHeld gone + flow.held := by
          simp only [assocsHeld, List.map_cons, List.sum_cons]
          abel
        rw [← hcons]
        exact hgone
    exact hfold _ _ _ hbalanced

/-- The association a send reaches, made for it if there is none. -/
def reached (t : BodyTable) (peerSlot flowId : ℕ) (terms : SendTerms) : Option OutAssociation :=
  match t.findOutAssoc peerSlot flowId with
  | some assoc => t.assocs[assoc]?
  | none => t.createAssociation peerSlot flowId terms

/-- A send that is stamped or queued reaches an association of the pool its packet was built in. -/
def FromOwnPool (t : BodyTable) : Event → Prop
  | .send hand peerSlot terms => hand ∈ t.hands →
    ∀ flow ∈ t.reached peerSlot hand.flowId terms,
      (flow.admitOut terms.budget hand.slot terms.wireSize terms.flying terms.now).1 ∈
        [.sent, .queued] → poolFor flow.mode = hand.pool
  | _ => True

instance (t : BodyTable) : DecidablePred t.FromOwnPool
  | .send hand .. => inferInstanceAs (Decidable (hand ∈ t.hands → _))
  | .openFlow .. | .closeFlow .. | .build .. | .copyBatch .. | .unpark .. | .discard .. | .ack ..
  | .tick .. | .refund .. | .drain .. | .fail .. | .removePeer .. => instDecidableTrue

theorem Inv.settle (h : t.Inv) (hhand : hand ∈ t.hands) {verdict : SendAdmission}
    (hv : keeps verdict hand.pool = false) : (t.settle hand verdict).Inv where
  tidy := h.tidy
  balanced := by
    have hbalanced := h.balanced
    have hheld : t.held = handsHeld (t.hands.erase hand) + assocsHeld t.assocs +
        Pi.single hand.pool {hand.slot} := by
      rw [held, handsHeld_erase hhand]
      abel
    rw [hheld] at hbalanced
    simp only [BodyTable.settle, hv, Bool.false_eq_true, if_false]
    exact hbalanced.release

theorem takes_single {mode : FlowMode} {verdict : SendAdmission}
    (hown : verdict ∈ [.sent, .queued] → poolFor mode = hand.pool) :
    (if takes mode verdict then
        (Pi.single (poolFor mode) {hand.slot} : BodyPool → Multiset ℕ) else 0) =
      if keeps verdict hand.pool then Pi.single hand.pool {hand.slot} else 0 := by
  by_cases hin : verdict ∈ [SendAdmission.sent, .queued]
  · rw [takes, hown hin]
  · simp only [List.mem_cons, List.not_mem_nil, or_false, not_or] at hin
    simp [takes, keeps, hin]

theorem Inv.admitAt (h : t.Inv) (hhand : hand ∈ t.hands) (terms : SendTerms)
    (hpool : ∀ flow, t.assocs[i]? = some flow →
      (flow.admitOut terms.budget hand.slot terms.wireSize terms.flying terms.now).1 ∈
        [.sent, .queued] → poolFor flow.mode = hand.pool) : (t.admitAt hand i terms).Inv := by
  unfold BodyTable.admitAt
  split
  · exact h.settle hhand rfl
  · next flow hi =>
    have htidy := h.tidy flow (List.mem_of_getElem? hi)
    obtain ⟨rest, hbefore, hafter⟩ := assocsHeld_set hi
    have htidy' := admitOut_tidy htidy terms.budget hand.slot terms.wireSize
      terms.flying terms.now
    have haccount := admitOut_held htidy terms.budget hand.slot terms.wireSize
      terms.flying terms.now
    have hbalanced := h.balanced
    rw [held, handsHeld_erase hhand, hbefore] at hbalanced
    dsimp only at haccount ⊢
    have hown := hpool flow hi
    generalize flow.admitOut terms.budget hand.slot terms.wireSize terms.flying terms.now = r
      at htidy' haccount hown ⊢
    rw [takes_single hown] at haccount
    constructor
    · intro other hother
      rcases List.mem_or_eq_of_mem_set hother with hold | rfl
      · exact h.tidy other hold
      · exact htidy'
    · have hheld : ((t.put i r.2.1 (t.ledger.releaseAll .send r.2.2.2)).settle hand r.1).held =
          handsHeld (t.hands.erase hand) + rest + r.2.1.held := by
        simp only [held, BodyTable.settle, BodyTable.put, hafter r.2.1, add_assoc]
      rw [hheld]
      simp only [BodyTable.settle, BodyTable.put]
      cases hkeeps : keeps r.1 hand.pool with
      | true =>
        -- a ring of the association owns the slot now
        rw [hkeeps, if_pos rfl] at haccount
        rw [if_pos rfl]
        apply Ledger.Balanced.releaseAll
        rw [add_assoc, haccount]
        convert hbalanced using 1
        abel
      | false =>
        rw [hkeeps, if_neg (by simp), add_zero] at haccount
        rw [if_neg (by simp)]
        apply Ledger.Balanced.release
        apply Ledger.Balanced.releaseAll
        rw [← haccount] at hbalanced
        convert hbalanced using 1
        abel

theorem Inv.created (h : t.Inv) (oldEpoch : ℕ) (p : OutAssocParams) (now : ℕ) :
    ({ t with assocs := t.assocs ++ [resetOutAssoc oldEpoch p now] } : BodyTable).Inv where
  tidy := by
    intro flow hflow
    rw [List.mem_append, List.mem_singleton] at hflow
    rcases hflow with hold | rfl
    · exact h.tidy flow hold
    · exact resetOutAssoc_tidy _ _ _
  balanced := by
    have hbalanced := h.balanced
    simpa [held, assocsHeld, resetOutAssoc_held] using hbalanced

theorem Inv.send (h : t.Inv) {peerSlot : ℕ} {terms : SendTerms}
    (hown : t.FromOwnPool (.send hand peerSlot terms)) : (t.send hand peerSlot terms).Inv := by
  unfold FromOwnPool reached at hown
  dsimp only at hown
  unfold BodyTable.send
  split
  · next hhand =>
    split
    · next i hfound =>
      rw [hfound] at hown
      exact h.admitAt hhand terms (hown hhand)
    · next hfound =>
      split
      · exact h.settle hhand rfl
      · next flow hcreated =>
        rw [hfound, hcreated] at hown
        unfold createAssociation at hcreated
        split at hcreated
        · rw [Option.map_eq_some_iff] at hcreated
          obtain ⟨mode, -, rfl⟩ := hcreated
          apply (h.created terms.oldEpoch _ terms.now).admitAt hhand
          intro flow hi
          simp only [List.getElem?_append_right (Nat.le_refl _), Nat.sub_self,
            List.getElem?_cons_zero, Option.some.injEq] at hi
          subst hi
          exact hown hhand _ rfl
        · simp at hcreated
  · exact h

theorem step_inv (timers : FlowTimers) (h : t.Inv) {e : Event} (hown : t.FromOwnPool e) :
    (t.step timers e).Inv := by
  cases e with
  | openFlow flowId mode =>
    rw [step, openFlow]
    split
    · exact ⟨h.tidy, h.balanced⟩
    · exact h
  | closeFlow flowId =>
    have hfreed := h.freeWhere fun flow => flow.flowId = flowId
    exact ⟨hfreed.tidy, hfreed.balanced⟩
  | build flowId slot =>
    rw [step, build]
    split
    · exact h
    · exact h.acquire _ _ _
  | copyBatch assoc slot =>
    rw [step, copyBatch]
    split
    · exact h
    · exact h.acquire _ _ _
  | unpark keepsBodyForResend flowId slot => exact h.acquire _ _ _
  | discard hand =>
    rw [step, discard]
    split
    · next hhand => exact h.settle hhand rfl
    · exact h
  | send hand peerSlot terms => exact h.send hown
  | ack assoc rtt ack now =>
    exact h.onAssoc fun flow htidy =>
      (flow.applyAck_walks timers rtt ack now .zero).returns htidy t.ledger
  | tick assoc budget now => exact h.onAssoc fun flow htidy => t.tick_held timers budget now htidy
  | refund assoc seqs =>
    exact h.onAssoc fun flow htidy =>
      (flow.refundResendAttempts_walks seqs (fun _ => False) 0).returns htidy t.ledger
  | drain assoc budget candidateEpoch candidateSlot now =>
    exact h.onAssoc fun flow htidy => t.drain_held budget candidateEpoch candidateSlot now htidy
  | fail assoc => exact h.onAssoc fun flow htidy => t.fail_held htidy
  | removePeer peerSlot => exact h.freeWhere _

/-- In every run whose stamped or queued sends reach an association of the pool their packet was
built in, every body slot has exactly one holder, in the pool that holder gives it back to. -/
theorem body_slots_settled (timers : FlowTimers) (events : List Event)
    (hown : Along (step timers) FromOwnPool init events) :
    (run (step timers) init events).Settled := by
  have hinv : (run (step timers) init events).Inv :=
    run_invariant (step timers) Inv FromOwnPool (fun _ _ hown h => step_inv timers h hown)
      inv_init hown
  exact hinv.settled

/-- One packet is sent and one is in hand when the flow closes: the first slot comes back
from the ring, the second from its handle. -/
theorem body_slots_settled_close :
    let timers : FlowTimers := ⟨100000, 25000, 30000000⟩
    let budget : PeerBudget := ⟨⟨0, 0, 0, 0, 0⟩, 100000, 0, 0, 0, 0, 100000, 0⟩
    let terms : SendTerms := ⟨⟨[1], 0, 9⟩, ⟨[1]⟩, 1, 4, 0, true, budget, 100, true, 5⟩
    let events : List Event :=
      [.openFlow 7 .reliableOrdered, .build 7 3, .send ⟨.staging, 3, 7⟩ 0 terms, .build 7 4]
    let sent := run (step timers) init events
    let closed := run (step timers) sent [.closeFlow 7, .discard ⟨.staging, 4, 7⟩]
    Along (step timers) FromOwnPool init events ∧ sent.Settled ∧
      sent.ledger.leased .staging = {3, 4} ∧
      closed.ledger.leased .staging = ∅ ∧ closed.ledger.faults = 0 :=
  ⟨by decide +kernel, body_slots_settled _ _ (by decide +kernel), by decide +kernel⟩

/-- A packet is built, its flow closed and the id opened again under another mode before
the send.  Built unreliable and sent reliable, its kernel slot is recorded in the in-flight
ring and given to the staging pool when the flow closes; built reliable and sent
unreliable, its staging slot is never given back. -/
theorem reopened_flow_mixes_pools :
    let timers : FlowTimers := ⟨100000, 25000, 30000000⟩
    let budget : PeerBudget := ⟨⟨0, 0, 0, 0, 0⟩, 100000, 0, 0, 0, 0, 100000, 0⟩
    let terms : SendTerms := ⟨⟨[1], 0, 9⟩, ⟨[1]⟩, 1, 4, 0, true, budget, 100, true, 5⟩
    let stamped := run (step timers) init
      [.openFlow 7 .unreliable, .build 7 3, .closeFlow 7, .openFlow 7 .reliableOrdered,
       .send ⟨.send, 3, 7⟩ 0 terms]
    let leaked := run (step timers) init
      [.openFlow 7 .reliableOrdered, .build 7 3, .closeFlow 7, .openFlow 7 .unreliable,
       .send ⟨.staging, 3, 7⟩ 0 terms, .closeFlow 7]
    (stamped.assocs.map (fun flow => (flow.inFlight 1).packetSlot) = [some 3] ∧
      stamped.ledger.leased .staging = ∅ ∧
      (run (step timers) stamped [.closeFlow 7]).ledger.faults = 1) ∧
    leaked.hands = 0 ∧ leaked.assocs.length = 0 ∧ leaked.ledger.leased .staging = {3} := by
  decide +kernel

end BodyTable

end BcpFlux.Flow
