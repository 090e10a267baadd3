import BcpFlux.Flow.ReceiverOrder
import BcpFlux.Library.Ledger

/-! # What a delivery does with receive slots

The receive slots an association keeps are those in its hold-back ring.  A delivery keeps
the arriving slot or lets it go, and moves held slots to the ready lane; a reclaim and a
reset give up everything held.
-/

namespace BcpFlux.Flow
open Library

/-! ## The cursor -/

theorem succSeq_iterate {seq : ℕ} (hpos : 0 < seq) (hlt : seq < 2 ^ 32) (n : ℕ) :
    succSeq^[n] seq = (seq - 1 + n) % (2 ^ 32 - 1) + 1 := by
  induction n with
  | zero =>
    change seq = _
    omega
  | succ n ih =>
    rw [Function.iterate_succ_apply', ih]
    unfold succSeq u32
    split <;> omega

theorem succSeq_iterate_ne {seq : ℕ} (hpos : 0 < seq) (hlt : seq < 2 ^ 32) {n : ℕ} (hn : 0 < n)
    (hturn : n < 2 ^ 32 - 1) : succSeq^[n] seq ≠ seq := by
  rw [succSeq_iterate hpos hlt]
  omega

def HoldbackEntry.slots (e : HoldbackEntry) : Multiset ℕ := e.packetSlot.toList

/-- The same answers with a lane that never fills. -/
def DeliveryEnv.unbounded (env : DeliveryEnv) : DeliveryEnv := { env with push := fun _ => true }

namespace InAssociation

/-! ## Held slots -/

def heldSlots (flow : InAssociation) : List ℕ :=
  (List.range flow.reorderCap).filterMap fun i => (flow.holdback i).packetSlot

theorem coe_heldSlots (flow : InAssociation) :
    (flow.heldSlots : Multiset ℕ) =
      contents HoldbackEntry.slots flow.reorderCap flow.holdback := by
  have hflat := contents_eq_flatMap flow.holdback (fun e => e.packetSlot.toList) flow.reorderCap
  refine Eq.trans ?_ hflat.symm
  rw [heldSlots, List.filterMap_eq_flatMap_toList]

/-- The shape every association of the table has: its ring was cut for its mode, and its
cursor is a sequence. -/
structure Shaped (flow : InAssociation) : Prop where
  cut : flow.reorderCap = reorderCapFor flow.mode
  pos : 0 < flow.recvNext
  lt : flow.recvNext < 2 ^ 32

variable {flow : InAssociation}

theorem Shaped.ring (h : flow.Shaped) :
    flow.reorderCap = 0 ∨ IsPow2 flow.reorderCap := by
  rw [h.cut, reorderCapFor]
  split
  · exact Or.inr (windowFor_isPow2 flow.mode)
  · exact Or.inl rfl

theorem Shaped.cap_le (h : flow.Shaped) : flow.reorderCap ≤ 1024 := by
  rw [h.cut]
  cases flow.mode <;> decide

theorem shaped_reset (old : InAssociation) (p : InAssocParams) (now : ℕ) :
    (resetInAssoc old p now).Shaped where
  cut := rfl
  pos := Nat.one_pos
  lt := Nat.one_lt_two_pow (by decide)

theorem heldSlots_reset (old : InAssociation) (p : InAssocParams) (now : ℕ) :
    (resetInAssoc old p now).heldSlots = [] := by
  rw [heldSlots, List.filterMap_eq_nil_iff]
  intro i _
  rfl

theorem heldSlots_put {flow' : InAssociation} (hring : IsPow2 flow.reorderCap) {n : ℕ}
    {v : HoldbackEntry} (hcap : flow'.reorderCap = flow.reorderCap)
    (hput : flow'.holdback = put flow.reorderCap flow.holdback n v) :
    (flow'.heldSlots : Multiset ℕ) +
        HoldbackEntry.slots (flow.holdback (slot flow.reorderCap n)) =
      flow.heldSlots + HoldbackEntry.slots v := by
  rw [coe_heldSlots, coe_heldSlots, hcap, hput]
  exact contents_put HoldbackEntry.slots flow.holdback hring n v

theorem heldSlots_congr {flow' : InAssociation} (hcap : flow'.reorderCap = flow.reorderCap)
    (hsame : flow'.holdback = flow.holdback) : flow'.heldSlots = flow.heldSlots := by
  rw [heldSlots, heldSlots, hcap, hsame]

theorem heldSlots_popCursor (hring : IsPow2 flow.reorderCap) {packetSlot : ℕ}
    (hcell : (flow.holdback (slot flow.reorderCap flow.recvNext)).packetSlot = some packetSlot) :
    (flow.popCursor.heldSlots : Multiset ℕ) + {packetSlot} = flow.heldSlots := by
  have hput : (flow.popCursor.heldSlots : Multiset ℕ) +
      HoldbackEntry.slots (flow.holdback (slot flow.reorderCap flow.recvNext)) =
        flow.heldSlots + HoldbackEntry.slots .free := heldSlots_put hring rfl rfl
  rw [HoldbackEntry.slots, hcell] at hput
  simpa [HoldbackEntry.slots, HoldbackEntry.free] using hput

/-! ## What stays -/

/-- The part of an association no delivery changes. -/
def core (flow : InAssociation) : ℕ × FlowMode × UInt8 × ℕ × FlowLifecycle × ℕ :=
  (flow.reorderCap, flow.mode, flow.flowEpoch, flow.flowId, flow.life, flow.epoch)

section Core
variable (env : DeliveryEnv) (flow : InAssociation) (seq now incoming : ℕ) (committed : Bool)

@[simp] theorem core_commitSeen : (flow.commitSeen seq).core = flow.core := by
  unfold commitSeen; split <;> rfl

@[simp] theorem core_armAckForArrival :
    (flow.armAckForArrival now committed).core = flow.core := by
  cases committed <;> rfl

@[simp] theorem commitSeen_heldCount : (flow.commitSeen seq).heldCount = flow.heldCount := by
  unfold commitSeen; split <;> rfl

@[simp] theorem armAckForArrival_heldCount :
    (flow.armAckForArrival now committed).heldCount = flow.heldCount := by
  cases committed <;> rfl

@[simp] theorem commitSeen_lastProgress :
    (flow.commitSeen seq).lastProgressMicros = flow.lastProgressMicros := by
  unfold commitSeen; split <;> rfl

@[simp] theorem armAckForArrival_lastProgress :
    (flow.armAckForArrival now committed).lastProgressMicros = flow.lastProgressMicros := by
  cases committed <;> rfl

end Core

section
variable (env : DeliveryEnv) (fuel pushed : ℕ) (flow : InAssociation)

theorem drainHoldbackRun_core :
    (drainHoldbackRun env fuel pushed flow).1.core = flow.core := by
  induction fuel generalizing pushed flow with
  | zero => rfl
  | succ fuel ih =>
    rcases drainHoldbackRun_succ env fuel pushed flow with ⟨-, heq⟩ | ⟨ps, -, -, heq⟩
    · rw [heq]
    · rw [heq]
      exact ih (pushed + 1) flow.popCursor

theorem drainHoldbackRun_slots
    (hring : flow.reorderCap = 0 ∨ IsPow2 flow.reorderCap) :
    ((drainHoldbackRun env fuel pushed flow).1.heldSlots : Multiset ℕ) +
        ((drainHoldbackRun env fuel pushed flow).2.map Ready.packetSlot : List ℕ) =
      flow.heldSlots := by
  induction fuel generalizing pushed flow with
  | zero => simp [drainHoldbackRun]
  | succ fuel ih =>
    rcases drainHoldbackRun_succ env fuel pushed flow with ⟨-, heq⟩ | ⟨ps, hcap, hcell, heq⟩
    · rw [heq]
      simp
    · have hpow : IsPow2 flow.reorderCap := hring.resolve_left (by omega)
      have hrest := ih (pushed + 1) flow.popCursor hring
      rw [heq, List.map_cons, ← Multiset.cons_coe, Multiset.add_cons, hrest,
        ← Multiset.singleton_add, add_comm]
      exact heldSlots_popCursor hpow (by rw [hcell])

theorem drainHoldbackRun_cursor :
    (drainHoldbackRun env fuel pushed flow).2.length ≤ fuel ∧
      (drainHoldbackRun env fuel pushed flow).1.recvNext =
        succSeq^[(drainHoldbackRun env fuel pushed flow).2.length] flow.recvNext := by
  induction fuel generalizing pushed flow with
  | zero => exact ⟨Nat.le_refl 0, rfl⟩
  | succ fuel ih =>
    rcases drainHoldbackRun_succ env fuel pushed flow with ⟨-, heq⟩ | ⟨ps, -, -, heq⟩
    · rw [heq]
      exact ⟨Nat.zero_le _, rfl⟩
    · obtain ⟨hlen, hnext⟩ := ih (pushed + 1) flow.popCursor
      rw [heq]
      refine ⟨Nat.succ_le_succ hlen, ?_⟩
      rw [hnext]
      rfl

end

/-! ## One delivery -/

/-- The two places that detach the arriving handle: the push to the lane, which comes
before any other, and the hold-back. -/
def pins (flow : InAssociation) (r : InAssociation × List Ready) : Bool :=
  !r.2.isEmpty || decide (flow.heldCount < r.1.heldCount)

/-- How a delivery can end: nothing kept, the packet held, or the packet queued with a run
of held ones behind it. -/
inductive Outcome (env : DeliveryEnv) (flow : InAssociation) (seq incoming : ℕ)
    (r : InAssociation × List Ready) : Prop where
  | quiet (ready : r.2 = []) (holdback : r.1.holdback = flow.holdback)
      (count : r.1.heldCount = flow.heldCount) (next : r.1.recvNext = flow.recvNext)
  | held (ordered : isOrdered flow.mode = true) (ready : r.2 = [])
      (holdback : r.1.holdback = put flow.reorderCap flow.holdback seq ⟨seq, some incoming⟩)
      (free : (flow.holdback (slot flow.reorderCap seq)).packetSlot = none)
      (cap : 0 < flow.reorderCap) (count : r.1.heldCount = flow.heldCount + 1)
      (room : env.hasRoomFor = true) (next : r.1.recvNext = flow.recvNext)
  | loose (unordered : isOrdered flow.mode = false) (ready : r.2 = [⟨seq, incoming⟩])
      (holdback : r.1.holdback = flow.holdback)
      (room : env.hasRoomFor = true) (next : r.1.recvNext = flow.recvNext)
  | run (ordered : isOrdered flow.mode = true) (cursor : seq = flow.recvNext)
      (room : 0 < flow.heldCount ∨ env.hasRoomFor = true) (rest : List Ready)
      (ready : r.2 = ⟨seq, incoming⟩ :: rest)
      (slots : (r.1.heldSlots : Multiset ℕ) + (rest.map Ready.packetSlot : List ℕ) = flow.heldSlots)
      (short : rest.length ≤ flow.reorderCap + 1)
      (next : r.1.recvNext = succSeq^[rest.length + 1] seq)

theorem deliverUnordered_outcome (env : DeliveryEnv) (flow : InAssociation) (incoming seq : ℕ)
    (hmode : isOrdered flow.mode = false) :
    Outcome env flow seq incoming (flow.deliverUnordered env incoming seq) ∧
      (flow.deliverUnordered env incoming seq).1.core = flow.core ∧
      (flow.deliverUnordered env incoming seq).1.lastProgressMicros = flow.lastProgressMicros := by
  unfold deliverUnordered
  split_ifs with hseen hold hroom hpush
  · exact ⟨.quiet rfl (by simp) (by simp) (by simp), by simp, by simp⟩
  · exact ⟨.quiet rfl (by simp) (by simp) (by simp), by simp, by simp⟩
  · exact ⟨.quiet rfl (by simp) (by simp) (by simp), by simp, by simp⟩
  · exact ⟨.quiet rfl rfl rfl rfl, rfl, rfl⟩
  · exact ⟨.loose hmode rfl (by simp) (by simpa using hroom) (by simp), by simp, by simp⟩

theorem drainHoldbackRun_lastProgress (env : DeliveryEnv) (fuel pushed : ℕ)
    (flow : InAssociation) :
    (drainHoldbackRun env fuel pushed flow).1.lastProgressMicros = flow.lastProgressMicros := by
  induction fuel generalizing pushed flow with
  | zero => rfl
  | succ fuel ih =>
    rcases drainHoldbackRun_succ env fuel pushed flow with ⟨-, heq⟩ | ⟨ps, -, -, heq⟩
    · rw [heq]
    · rw [heq]
      exact ih (pushed + 1) flow.popCursor

theorem deliverOrdered_outcome (env : DeliveryEnv) (flow : InAssociation) (incoming seq : ℕ)
    (hring : flow.reorderCap = 0 ∨ IsPow2 flow.reorderCap) (hmode : isOrdered flow.mode = true) :
    Outcome env flow seq incoming (flow.deliverOrdered env incoming seq) ∧
      (flow.deliverOrdered env incoming seq).1.core = flow.core ∧
      (flow.deliverOrdered env incoming seq).1.lastProgressMicros = flow.lastProgressMicros := by
  unfold deliverOrdered
  split_ifs with hbelow hcursor hfull hpush hahead hfree
  · exact ⟨.quiet rfl (by simp) (by simp) (by simp), by simp; rfl, by simp⟩
  · exact ⟨.quiet rfl (by simp) (by simp) (by simp), by simp, by simp⟩
  · exact ⟨.quiet rfl rfl rfl rfl, rfl, rfl⟩
  · -- the cursor packet, and the run behind it
    have hcore : (flow.advanceCursor env seq).core = flow.core := by
      change ((flow.commitSeen seq).armAckForArrival env.now true).core = flow.core
      simp
    have hroom : 0 < flow.heldCount ∨ env.hasRoomFor = true := by
      rcases Nat.eq_zero_or_pos flow.heldCount with hzero | hpos
      · exact Or.inr (by simpa [hzero] using hfull)
      · exact Or.inl hpos
    have hcap : (flow.advanceCursor env seq).reorderCap = flow.reorderCap := congrArg Prod.fst hcore
    have hheld : (flow.advanceCursor env seq).heldSlots = flow.heldSlots :=
      heldSlots_congr hcap (by simp [advanceCursor])
    have hslots := drainHoldbackRun_slots env (flow.reorderCap + 1) 1
      (flow.advanceCursor env seq) (hcap.symm ▸ hring)
    have hdrain := drainHoldbackRun_cursor env (flow.reorderCap + 1) 1 (flow.advanceCursor env seq)
    refine ⟨.run hmode hcursor hroom _ rfl ?_ hdrain.1 hdrain.2, ?_, ?_⟩
    · rw [← hheld]
      exact hslots
    · rw [drainHoldbackRun_core, hcore]
    · rw [drainHoldbackRun_lastProgress]
      simp [advanceCursor]
  · refine ⟨.held hmode rfl ?_ hfree hahead.1 ?_ hahead.2.1 ?_, ?_, ?_⟩
    · simp [holdPacket]
    · simp [holdPacket]
    · simp [holdPacket]
    · simp only [holdPacket, core_armAckForArrival]
      exact core_commitSeen _ seq
    · simp [holdPacket]
  · exact ⟨.quiet rfl rfl rfl rfl, rfl, rfl⟩
  · exact ⟨.quiet rfl (by simp) (by simp) (by simp), by simp; rfl, by simp⟩

variable {env : DeliveryEnv} {seq incoming : ℕ} {r : InAssociation × List Ready}

theorem Outcome.stamp (h : Outcome env flow seq incoming r) (now : ℕ) :
    Outcome env flow seq incoming ({ r.1 with lastProgressMicros := now }, r.2) := by
  cases h with
  | quiet ready holdback count next => exact .quiet ready holdback count next
  | held ordered ready holdback free cap count room next =>
    exact .held ordered ready holdback free cap count room next
  | loose unordered ready holdback room next => exact .loose unordered ready holdback room next
  | run ordered cursor room rest ready slots short next =>
    exact .run ordered cursor room rest ready slots short next

theorem Outcome.moved (h : Outcome env flow seq incoming r) (hshape : flow.Shaped)
    (hmode : isOrdered flow.mode = true) : r.1.recvNext ≠ flow.recvNext ↔ r.2 ≠ [] := by
  cases h with
  | quiet ready _ _ next => simp [ready, next]
  | held _ ready _ _ _ _ _ next => simp [ready, next]
  | loose unordered _ _ _ _ => simp [hmode] at unordered
  | run _ cursor _ rest ready _ short next =>
    have hcap := hshape.cap_le
    have hne : succSeq^[rest.length + 1] seq ≠ seq := by
      rw [cursor]
      exact succSeq_iterate_ne hshape.pos hshape.lt (Nat.succ_pos _) (by omega)
    rw [ready, next, ← cursor]
    exact iff_of_true hne (List.cons_ne_nil _ _)

theorem Outcome.slots (h : Outcome env flow seq incoming r) (hshape : flow.Shaped)
    (hcore : r.1.core = flow.core) :
    (r.1.heldSlots : Multiset ℕ) + (r.2.map Ready.packetSlot : List ℕ) =
      flow.heldSlots + (if flow.pins r then {incoming} else 0) := by
  have hcap : r.1.reorderCap = flow.reorderCap := congrArg Prod.fst hcore
  cases h with
  | quiet ready holdback count _ =>
    rw [heldSlots_congr hcap holdback, pins, ready, count]
    simp
  | held _ ready holdback free cap count _ _ =>
    have hput := heldSlots_put (hshape.ring.resolve_left (by omega)) hcap holdback
    rw [pins, ready, count]
    simpa [HoldbackEntry.slots, free] using hput
  | loose _ ready holdback _ _ =>
    rw [heldSlots_congr hcap holdback, pins, ready]
    simp
  | run _ _ _ rest ready slots _ _ =>
    rw [pins, ready, List.map_cons, ← Multiset.cons_coe, Multiset.add_cons, slots,
      ← Multiset.singleton_add, add_comm]
    simp

theorem Outcome.room (h : Outcome env flow seq incoming r)
    (hpins : flow.pins r = true) :
    env.hasRoomFor = true ∨
      isOrdered flow.mode = true ∧ seq = flow.recvNext ∧ 0 < flow.heldCount := by
  cases h with
  | quiet ready _ count _ => simp [pins, ready, count] at hpins
  | held _ _ _ _ _ _ room _ => exact Or.inl room
  | loose _ _ _ room _ => exact Or.inl room
  | run ordered cursor room _ _ _ _ _ =>
    rcases room with hheld | hroom
    · exact Or.inr ⟨ordered, cursor, hheld⟩
    · exact Or.inl hroom

theorem Outcome.shaped (h : Outcome env flow seq incoming r) (hshape : flow.Shaped)
    (hcore : r.1.core = flow.core) : r.1.Shaped := by
  have hcut : r.1.reorderCap = reorderCapFor r.1.mode := by
    have hcap : r.1.reorderCap = flow.reorderCap := congrArg Prod.fst hcore
    have hmode : r.1.mode = flow.mode := congrArg (fun c => c.2.1) hcore
    rw [hcap, hmode, hshape.cut]
  have hnext : 0 < r.1.recvNext ∧ r.1.recvNext < 2 ^ 32 := by
    cases h with
    | quiet _ _ _ next => rw [next]; exact ⟨hshape.pos, hshape.lt⟩
    | held _ _ _ _ _ _ _ next => rw [next]; exact ⟨hshape.pos, hshape.lt⟩
    | loose _ _ _ _ next => rw [next]; exact ⟨hshape.pos, hshape.lt⟩
    | run _ cursor _ rest _ _ _ next =>
      rw [next, cursor, succSeq_iterate hshape.pos hshape.lt]
      omega
  exact ⟨hcut, hnext.1, hnext.2⟩

/-- What one delivery into an association of the table does. -/
structure Delivers (env : DeliveryEnv) (flow : InAssociation) (seq incoming : ℕ)
    (r : InAssociation × List Ready) : Prop where
  outcome : Outcome env flow seq incoming r
  core : r.1.core = flow.core
  progress : r.1.lastProgressMicros =
    if isOrdered flow.mode = true ∧ r.2 ≠ [] then env.now else flow.lastProgressMicros

theorem deliverIn_delivers (env : DeliveryEnv) (flow : InAssociation) (hshape : flow.Shaped)
    (flowId assocEpoch seq incoming : ℕ) :
    Delivers env flow seq incoming (flow.deliverIn env flowId assocEpoch seq incoming) := by
  rw [deliverIn]
  by_cases hopen : flow.epoch = assocEpoch ∧ flow.life = .opened ∧ flow.flowId = flowId
  · rw [if_pos hopen]
    cases hmode : isOrdered flow.mode with
    | true =>
      obtain ⟨hout, hcore, hprogress⟩ :=
        deliverOrdered_outcome env flow incoming seq hshape.ring hmode
      have hmoved := hout.moved hshape hmode
      simp only [if_true]
      split_ifs with hne
      · exact ⟨hout.stamp env.now, hcore, by simp [hmode, hmoved.mp hne]⟩
      · exact ⟨hout, hcore, by simp [hprogress, mt hmoved.mpr hne]⟩
    | false =>
      obtain ⟨hout, hcore, hprogress⟩ := deliverUnordered_outcome env flow incoming seq hmode
      have hsame : (flow.deliverUnordered env incoming seq).1.recvNext = flow.recvNext := by
        cases hout with
        | quiet _ _ _ next => exact next
        | held _ _ _ _ _ _ _ next => exact next
        | loose _ _ _ _ next => exact next
        | run ordered _ _ _ _ _ _ _ => simp [hmode] at ordered
      simp only [Bool.false_eq_true, if_false, hsame, ne_eq, not_true]
      exact ⟨hout, hcore, by simp [hprogress, hmode]⟩
  · rw [if_neg hopen]
    exact ⟨.quiet rfl rfl rfl rfl, rfl, by simp⟩

/-! ## Open lanes

A delivery pushes the arriving packet first and after it one held packet per further push,
so a lane with room for all of them is as good as one that never fills.
-/

theorem drainHoldbackRun_unbounded (env : DeliveryEnv) (fuel pushed : ℕ) (flow : InAssociation)
    (hring : flow.reorderCap = 0 ∨ IsPow2 flow.reorderCap)
    (hpush : ∀ k, k < pushed + flow.heldSlots.length → env.push k = true) :
    drainHoldbackRun env fuel pushed flow = drainHoldbackRun env.unbounded fuel pushed flow := by
  induction fuel generalizing pushed flow with
  | zero => rfl
  | succ fuel ih =>
    rw [drainHoldbackRun, drainHoldbackRun]
    by_cases hcap : flow.reorderCap = 0
    · rw [if_pos hcap, if_pos hcap]
    dsimp only
    cases hslot : (flow.holdback (slot flow.reorderCap flow.recvNext)).packetSlot with
    | none => rfl
    | some packetSlot =>
      -- one held packet fewer for the rest of the run
      have hlength : flow.popCursor.heldSlots.length + 1 = flow.heldSlots.length := by
        have hcard := congrArg Multiset.card (heldSlots_popCursor (hring.resolve_left hcap) hslot)
        simpa using hcard
      have hnow : env.push pushed = true := hpush pushed (by omega)
      have hrest := ih (pushed + 1) flow.popCursor hring (fun k hk => hpush k (by omega))
      have hopen : env.unbounded.push pushed = true := rfl
      simp only [hnow, hopen, hrest]

theorem deliverIn_unbounded (env : DeliveryEnv) (flow : InAssociation) (hshape : flow.Shaped)
    (hpush : ∀ k ≤ flow.heldSlots.length, env.push k = true) (flowId assocEpoch seq incoming : ℕ) :
    flow.deliverIn env flowId assocEpoch seq incoming =
      flow.deliverIn env.unbounded flowId assocEpoch seq incoming := by
  have hfirst : env.push 0 = env.unbounded.push 0 := hpush 0 (Nat.zero_le _)
  have hroom : env.hasRoomFor = env.unbounded.hasRoomFor := rfl
  have hnow : env.now = env.unbounded.now := rfl
  have hordered : flow.deliverOrdered env incoming seq =
      flow.deliverOrdered env.unbounded incoming seq := by
    have hcap : (flow.advanceCursor env seq).reorderCap = flow.reorderCap := by
      simp [advanceCursor]
    have hheld : (flow.advanceCursor env seq).heldSlots = flow.heldSlots :=
      heldSlots_congr hcap (by simp [advanceCursor])
    have hdrain := drainHoldbackRun_unbounded env (flow.reorderCap + 1) 1 (flow.advanceCursor env seq)
      (hcap.symm ▸ hshape.ring) (fun k hk => hpush k (by rw [hheld] at hk; omega))
    unfold deliverOrdered
    simp only [hdrain, hfirst, hroom, hnow]
    rfl
  have hunordered : flow.deliverUnordered env incoming seq =
      flow.deliverUnordered env.unbounded incoming seq := by
    unfold deliverUnordered
    simp only [hfirst, hroom, hnow]
  rw [deliverIn, deliverIn, hordered, hunordered, hnow]

/-! ## Reclaim -/

theorem dropInHoldback_heldSlots (flow : InAssociation) : flow.dropInHoldback.1.heldSlots = [] := by
  rw [heldSlots, List.filterMap_eq_nil_iff, dropInHoldback]
  split_ifs with hcap
  · simp [hcap]
  · intro i hi
    simp only [scan_cell, List.mem_range.mp hi, if_true]
    rw [dropCell]
    split
    · assumption
    · rfl

theorem reclaimJammed_core (stallTimeout now : ℕ) (flow : InAssociation) :
    (flow.reclaimJammed stallTimeout now).1.core = flow.core := by
  have hdrop : flow.dropInHoldback.1.core = flow.core := by
    rw [dropInHoldback]
    split <;> rfl
  rw [reclaimJammed]
  split
  · exact hdrop
  · rfl

theorem Shaped.reclaimJammed (h : flow.Shaped) (stallTimeout now : ℕ) :
    (flow.reclaimJammed stallTimeout now).1.Shaped := by
  have hcore := reclaimJammed_core stallTimeout now flow
  have hcap : (flow.reclaimJammed stallTimeout now).1.reorderCap = flow.reorderCap :=
    congrArg Prod.fst hcore
  obtain ⟨hnext, hmode, -⟩ := reclaimJammed_frame stallTimeout now flow
  exact ⟨by rw [hcap, hmode, h.cut], hnext ▸ h.pos, hnext ▸ h.lt⟩

end InAssociation

end BcpFlux.Flow
