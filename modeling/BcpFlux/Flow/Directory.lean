import BcpFlux.Flow.Inbound

/-! # Admission of an arriving flow packet

A peer's directory of receiving associations, `AdmitIn`, and the delivery into the
association it finds.  A published slot belongs to one directory entry, so the entry
carries the association itself and its position stands for the slot index.
-/

namespace BcpFlux.Flow
open Library

structure InDirEntry where
  flowId : ℕ
  /-- The slot was cut from the bulk sub-pool. -/
  bulk : Bool
  assoc : InAssociation

inductive FlowAdmit where
  | registered
  | existing
  | reopened
  | stale
  | rejected
deriving DecidableEq, Repr

structure PeerRef where
  slot : ℕ
  addr : Address
  id : BcpId
deriving DecidableEq, Repr

structure ReceiveLimits where
  flowStallTimeout : ℕ
  maxInAssocPerPeer : ℕ
deriving DecidableEq, Repr

/-- The answers of the shared tables while one flow packet is taken in. -/
structure FlowInEnv where
  delivery : DeliveryEnv
  /-- The slot a sub-pool hands out, with what its last tenant left in it. -/
  acquired : Option InAssociation
  /-- The event table records the opening. -/
  recorded : Bool

/-- `FindFlowSlot`: the first entry of the id, and where it stands. -/
def findFlowSlot (dir : List InDirEntry) (flowId : ℕ) : Option (InDirEntry × ℕ) :=
  dir.zipIdx.find? fun p => p.1.flowId == flowId

/-- The generation order with the way out of a long stall: an association that made no
progress for the whole timeout believes a straggler. -/
def admitOrder (stallTimeout now : ℕ) (assoc : InAssociation) (flowEpoch : UInt8) :
    FlowEpochOrder :=
  let order := compareFlowEpoch assoc.flowEpoch flowEpoch
  if order = .stale ∧ stallTimeout < elapsed now assoc.lastProgressMicros then .newer else order

/-- `AdmitInFlow`. -/
def admitInFlow (limits : ReceiveLimits) (env : FlowInEnv) (dir : List InDirEntry)
    (peer : PeerRef) (flowId : ℕ) (flowData : UInt8) : List InDirEntry × FlowAdmit :=
  match decodeFlowData flowData with
  | none => (dir, .rejected)
  | some (mode, flowEpoch, _) =>
    let fresh (old : InAssociation) :=
      resetInAssoc old ⟨peer.slot, peer.addr, peer.id, flowId, mode, flowEpoch⟩ env.delivery.now
    let bulk := decide (mode = .reliableOrderedBulk)
    match findFlowSlot dir flowId with
    | some (e, i) =>
      match admitOrder limits.flowStallTimeout env.delivery.now e.assoc flowEpoch with
      | .newer =>
        -- the window of the new mode has to fit the slot
        if e.bulk ≠ bulk then (dir, .rejected)
        else (dir.set i { e with assoc := fresh e.assoc }, .reopened)
      | .stale => (dir, .stale)
      | .current => (dir, .existing)
    | none =>
      match env.acquired with
      | none => (dir, .rejected)
      | some old =>
        if dir.length < limits.maxInAssocPerPeer then
          (dir ++ [⟨flowId, bulk, fresh old⟩], .registered)
        else (dir, .rejected)

/-- `AdmitIn` and the event that follows it: the directory, the verdict, and the slot with
its lease epoch. -/
def admitIn (limits : ReceiveLimits) (env : FlowInEnv) (dir : List InDirEntry) (peer : PeerRef)
    (flowId : ℕ) (flowData : UInt8) : List InDirEntry × FlowAdmit × Option (ℕ × ℕ) :=
  let r := admitInFlow limits env dir peer flowId flowData
  let found := (findFlowSlot r.1 flowId).map fun p => (p.2, p.1.assoc.epoch)
  match r.2 with
  | .existing => (r.1, .existing, found)
  | .registered | .reopened =>
    let opened := if env.recorded then
        match found with
        | none => r.1
        | some (i, _) => r.1.modify i fun e => { e with assoc := { e.assoc with emitting := true } }
      else r.1
    (opened, r.2, found)
  | .stale | .rejected => (r.1, r.2, none)

/-- `DeliverIn` on the slot an admission found. -/
def deliverInSlot (env : DeliveryEnv) (dir : List InDirEntry) (i flowId assocEpoch seq incoming : ℕ) :
    List InDirEntry × List Ready :=
  match dir[i]? with
  | none => (dir, [])
  | some e =>
    let r := e.assoc.deliverIn env flowId assocEpoch seq incoming
    (dir.set i { e with assoc := r.1 }, r.2)

/-- Admission and delivery of one flow packet. -/
def flowIn (limits : ReceiveLimits) (env : FlowInEnv) (dir : List InDirEntry) (peer : PeerRef)
    (flowId : ℕ) (flowData : UInt8) (seq incoming : ℕ) :
    List InDirEntry × FlowAdmit × List Ready :=
  let a := admitIn limits env dir peer flowId flowData
  match a.2.2 with
  | none => (a.1, a.2.1, [])
  | some (i, epoch) =>
    let r := deliverInSlot env.delivery a.1 i flowId epoch seq incoming
    (r.1, a.2.1, r.2)

/-! ## Looking an association up -/

theorem findFlowSlot_eq_some_iff {dir : List InDirEntry} {flowId i : ℕ} {e : InDirEntry} :
    findFlowSlot dir flowId = some (e, i) ↔
      dir[i]? = some e ∧ e.flowId = flowId ∧
        ∀ j < i, ∀ e', dir[j]? = some e' → e'.flowId ≠ flowId := by
  rw [findFlowSlot, List.find?_eq_some_iff_getElem]
  constructor
  · rintro ⟨hid, j, hj, hget, hbefore⟩
    rw [List.getElem_zipIdx, Prod.mk.injEq] at hget
    obtain ⟨rfl, hij⟩ := hget
    rw [Nat.zero_add] at hij
    subst hij
    have hlt : j < dir.length := by simpa using hj
    refine ⟨List.getElem?_eq_getElem hlt, by simpa using hid, ?_⟩
    intro k hk e' he'
    have hne := hbefore k hk
    obtain ⟨hklt, rfl⟩ := List.getElem?_eq_some_iff.mp he'
    simpa [List.getElem_zipIdx] using hne
  · rintro ⟨hget, hid, hbefore⟩
    obtain ⟨hlt, rfl⟩ := List.getElem?_eq_some_iff.mp hget
    refine ⟨by simpa using hid, i, by simpa using hlt, by simp [List.getElem_zipIdx], ?_⟩
    intro k hk
    have hne := hbefore k hk dir[k] (List.getElem?_eq_getElem (hk.trans hlt))
    simpa [List.getElem_zipIdx] using hne

theorem findFlowSlot_eq_none_iff {dir : List InDirEntry} {flowId : ℕ} :
    findFlowSlot dir flowId = none ↔ ∀ e ∈ dir, e.flowId ≠ flowId := by
  rw [findFlowSlot, List.find?_eq_none]
  constructor
  · intro h e he
    obtain ⟨i, hi⟩ := List.mem_iff_getElem?.mp he
    have hne := h (e, i) (List.mem_zipIdx_iff_getElem?.mpr hi)
    simpa using hne
  · rintro h ⟨e, i⟩ hmem
    have hi : dir[i]? = some e := List.mem_zipIdx_iff_getElem?.mp hmem
    simpa using h e (List.mem_of_getElem? hi)

/-! ## How an admission can end -/

section Admission
variable (limits : ReceiveLimits) (env : FlowInEnv) (dir : List InDirEntry) (peer : PeerRef)
  (flowId : ℕ) (flowData : UInt8)

def resetParams (mode : FlowMode) (flowEpoch : UInt8) : InAssocParams :=
  ⟨peer.slot, peer.addr, peer.id, flowId, mode, flowEpoch⟩

def reopenEntry (e : InDirEntry) (p : InAssocParams) (now : ℕ) : InDirEntry :=
  { e with assoc := resetInAssoc e.assoc p now }

/-- The packet is turned away, it is of the generation the association is in, an association
starts a new generation in its place, or a new one is published. -/
inductive Admission : List InDirEntry × FlowAdmit → Prop where
  | refused (verdict : FlowAdmit) (away : verdict = .stale ∨ verdict = .rejected) :
      Admission (dir, verdict)
  | existing (mode : FlowMode) (flowEpoch : UInt8) (part : FlowPart) (e : InDirEntry) (i : ℕ)
      (decoded : decodeFlowData flowData = some (mode, flowEpoch, part))
      (found : findFlowSlot dir flowId = some (e, i))
      (current : admitOrder limits.flowStallTimeout env.delivery.now e.assoc flowEpoch = .current) :
      Admission (dir, .existing)
  | reopened (mode : FlowMode) (flowEpoch : UInt8) (part : FlowPart) (e : InDirEntry) (i : ℕ)
      (decoded : decodeFlowData flowData = some (mode, flowEpoch, part))
      (found : findFlowSlot dir flowId = some (e, i))
      (newer : admitOrder limits.flowStallTimeout env.delivery.now e.assoc flowEpoch = .newer)
      (fits : e.bulk = decide (mode = .reliableOrderedBulk)) :
      Admission
        (dir.set i (reopenEntry e (resetParams peer flowId mode flowEpoch) env.delivery.now), .reopened)
  | registered (mode : FlowMode) (flowEpoch : UInt8) (part : FlowPart) (old : InAssociation)
      (decoded : decodeFlowData flowData = some (mode, flowEpoch, part))
      (missing : findFlowSlot dir flowId = none) :
      Admission (dir ++ [⟨flowId, decide (mode = .reliableOrderedBulk),
        resetInAssoc old (resetParams peer flowId mode flowEpoch) env.delivery.now⟩], .registered)

theorem admitInFlow_admission :
    Admission limits env dir peer flowId flowData
      (admitInFlow limits env dir peer flowId flowData) := by
  unfold admitInFlow
  cases hdecode : decodeFlowData flowData with
  | none => exact .refused _ (Or.inr rfl)
  | some data =>
    obtain ⟨mode, flowEpoch, part⟩ := data
    cases hfind : findFlowSlot dir flowId with
    | none =>
      cases hacquired : env.acquired with
      | none => exact .refused _ (Or.inr rfl)
      | some old =>
        dsimp only
        split
        · exact .registered mode flowEpoch part old hdecode hfind
        · exact .refused _ (Or.inr rfl)
    | some found =>
      obtain ⟨e, i⟩ := found
      dsimp only
      cases horder : admitOrder limits.flowStallTimeout env.delivery.now e.assoc flowEpoch with
      | newer =>
        dsimp only
        split
        · exact .refused _ (Or.inr rfl)
        · next hfits =>
          exact .reopened mode flowEpoch part e i hdecode hfind horder (by simpa using hfits)
      | stale => exact .refused _ (Or.inl rfl)
      | current => exact .existing mode flowEpoch part e i hdecode hfind horder

def markEmitting (e : InDirEntry) : InDirEntry :=
  { e with assoc := { e.assoc with emitting := true } }

theorem admitIn_dir :
    (admitIn limits env dir peer flowId flowData).2.1 =
        (admitInFlow limits env dir peer flowId flowData).2 ∧
      ((admitIn limits env dir peer flowId flowData).1 =
          (admitInFlow limits env dir peer flowId flowData).1 ∨
        ∃ i, (admitIn limits env dir peer flowId flowData).1 =
          (admitInFlow limits env dir peer flowId flowData).1.modify i markEmitting) := by
  unfold admitIn
  generalize admitInFlow limits env dir peer flowId flowData = r
  obtain ⟨dir', verdict⟩ := r
  cases verdict with
  | existing => exact ⟨rfl, Or.inl rfl⟩
  | stale => exact ⟨rfl, Or.inl rfl⟩
  | rejected => exact ⟨rfl, Or.inl rfl⟩
  | registered =>
    dsimp only
    refine ⟨rfl, ?_⟩
    split
    · split
      · exact Or.inl rfl
      · exact Or.inr ⟨_, rfl⟩
    · exact Or.inl rfl
  | reopened =>
    dsimp only
    refine ⟨rfl, ?_⟩
    split
    · split
      · exact Or.inl rfl
      · exact Or.inr ⟨_, rfl⟩
    · exact Or.inl rfl

theorem findFlowSlot_mark {dir : List InDirEntry} {flowId i : ℕ} {e : InDirEntry}
    (h : findFlowSlot dir flowId = some (e, i)) (k : ℕ) :
    findFlowSlot (dir.modify k markEmitting) flowId =
      some (if k = i then markEmitting e else e, i) := by
  obtain ⟨hget, hid, hbefore⟩ := findFlowSlot_eq_some_iff.mp h
  rw [findFlowSlot_eq_some_iff]
  refine ⟨?_, ?_, ?_⟩
  · rw [List.getElem?_modify, hget]
    split_ifs <;> rfl
  · split_ifs
    · exact hid
    · exact hid
  · intro j hj e' he'
    rw [List.getElem?_modify] at he'
    obtain ⟨e₀, he₀, rfl⟩ := Option.map_eq_some_iff.mp he'
    have hne := hbefore j hj e₀ he₀
    split_ifs
    · exact hne
    · exact hne

theorem findFlowSlot_set_self {dir : List InDirEntry} {flowId i : ℕ} {e : InDirEntry}
    (h : findFlowSlot dir flowId = some (e, i)) (fresh : InDirEntry) (hfresh : fresh.flowId = e.flowId) :
    findFlowSlot (dir.set i fresh) flowId = some (fresh, i) := by
  obtain ⟨hget, hid, hbefore⟩ := findFlowSlot_eq_some_iff.mp h
  have hlt : i < dir.length := (List.getElem?_eq_some_iff.mp hget).1
  rw [findFlowSlot_eq_some_iff]
  refine ⟨by simp [hlt], hfresh.trans hid, ?_⟩
  intro k hk e' he'
  rw [List.getElem?_set_ne (by omega)] at he'
  exact hbefore k hk e' he'

theorem admitIn_found {i epoch : ℕ}
    (h : (admitIn limits env dir peer flowId flowData).2.2 = some (i, epoch)) :
    ((admitIn limits env dir peer flowId flowData).1 = dir ∧
      (admitIn limits env dir peer flowId flowData).2.1 = .existing ∧
      ∃ mode flowEpoch part e, decodeFlowData flowData = some (mode, flowEpoch, part) ∧
        findFlowSlot dir flowId = some (e, i) ∧
        admitOrder limits.flowStallTimeout env.delivery.now e.assoc flowEpoch = .current) ∨
    ((admitIn limits env dir peer flowId flowData).2.1 = .registered ∨
        (admitIn limits env dir peer flowId flowData).2.1 = .reopened) ∧
      ∃ e old params,
        findFlowSlot (admitIn limits env dir peer flowId flowData).1 flowId = some (e, i) ∧
        (e.assoc = resetInAssoc old params env.delivery.now ∨
          e.assoc = { resetInAssoc old params env.delivery.now with emitting := true }) := by
  have hadmission := admitInFlow_admission limits env dir peer flowId flowData
  -- the mark leaves a fresh association fresh
  have hmark : ∀ (dir' : List InDirEntry) (e : InDirEntry) (old : InAssociation)
      (params : InAssocParams), findFlowSlot dir' flowId = some (e, i) →
      e.assoc = resetInAssoc old params env.delivery.now →
      ∀ opened, (opened = dir' ∨ ∃ j, opened = dir'.modify j markEmitting) →
      ∃ e old params, findFlowSlot opened flowId = some (e, i) ∧
        (e.assoc = resetInAssoc old params env.delivery.now ∨
          e.assoc = { resetInAssoc old params env.delivery.now with emitting := true }) := by
    rintro dir' e old params hfind hfresh opened (rfl | ⟨j, rfl⟩)
    · exact ⟨e, old, params, hfind, Or.inl hfresh⟩
    · refine ⟨_, old, params, findFlowSlot_mark hfind j, ?_⟩
      split_ifs
      · right
        rw [markEmitting, hfresh]
      · exact Or.inl hfresh
  obtain ⟨hverdict, hdir⟩ := admitIn_dir limits env dir peer flowId flowData
  unfold admitIn at h
  generalize hr : admitInFlow limits env dir peer flowId flowData = r at hadmission hverdict hdir h
  cases hadmission with
  | refused verdict away => rcases away with rfl | rfl <;> cases h
  | existing mode flowEpoch part e j decoded found current =>
    left
    have hsame : (admitIn limits env dir peer flowId flowData).1 = dir := by
      unfold admitIn
      rw [hr]
    refine ⟨hsame, hverdict, mode, flowEpoch, part, e, decoded, ?_, current⟩
    dsimp only at h
    rw [found] at h
    cases h
    exact found
  | reopened mode flowEpoch part e j decoded found newer fits =>
    right
    generalize hfresh : reopenEntry e (resetParams peer flowId mode flowEpoch) env.delivery.now =
      fresh at hdir h
    have hfreshId : fresh.flowId = e.flowId := by
      rw [← hfresh]
      rfl
    have hfound : findFlowSlot (dir.set j fresh) flowId = some (fresh, j) :=
      findFlowSlot_set_self found fresh hfreshId
    dsimp only at h
    rw [hfound] at h
    cases h
    refine ⟨Or.inr hverdict, hmark (dir.set j fresh) fresh e.assoc
      (resetParams peer flowId mode flowEpoch) hfound ?_ _ hdir⟩
    rw [← hfresh]
    rfl
  | registered mode flowEpoch part old decoded missing =>
    right
    generalize hfresh : InDirEntry.mk flowId (decide (mode = .reliableOrderedBulk))
      (resetInAssoc old (resetParams peer flowId mode flowEpoch) env.delivery.now) =
      fresh at hdir h
    have hfreshId : fresh.flowId = flowId := by
      rw [← hfresh]
    have hfound : findFlowSlot (dir ++ [fresh]) flowId = some (fresh, dir.length) := by
      rw [findFlowSlot_eq_some_iff]
      refine ⟨by simp, hfreshId, ?_⟩
      intro k hk e' he'
      rw [List.getElem?_append_left hk] at he'
      exact findFlowSlot_eq_none_iff.mp missing e' (List.mem_of_getElem? he')
    dsimp only at h
    rw [hfound] at h
    cases h
    refine ⟨Or.inl hverdict, hmark (dir ++ [fresh]) fresh old
      (resetParams peer flowId mode flowEpoch) hfound ?_ _ hdir⟩
    rw [← hfresh]

end Admission

/-! ## Packets that leave no trace

An association is left as it was by a packet it does not accept and cannot even count:
the counter of owed acknowledgements is full, or the ready lane is.
-/

namespace InAssociation
variable (env : DeliveryEnv) (flow : InAssociation)

def ackSaturated : Bool := decide (uint32Max ≤ flow.newSinceFlush)

/-- A flow packet of this sequence neither changes the association nor is delivered. -/
def ignores (flowId seq : ℕ) : Bool :=
  if flow.life ≠ .opened ∨ flow.flowId ≠ flowId then true
  else if isOrdered flow.mode then
    if seq < flow.recvNext then flow.ackSaturated && flow.ackImmediate
    else if seq = flow.recvNext then
      if flow.heldCount = 0 ∧ env.hasRoomFor = false then flow.ackSaturated else !env.push 0
    else if 0 < flow.reorderCap ∧ env.hasRoomFor = true ∧
        seq < u32 (flow.recvNext + flow.reorderCap) then
      (flow.holdback (slot flow.reorderCap seq)).packetSlot.isSome
    else flow.ackSaturated && flow.ackImmediate
  else if flow.alreadySeen seq then flow.ackSaturated
  else if flow.mode = .unreliable ∧ seq ≤ flow.recvHighest then false
  else if !env.hasRoomFor then flow.ackSaturated
  else !env.push 0

variable {env flow} {seq incoming : ℕ}

theorem armAckForArrival_eq_self_iff (now : ℕ) :
    flow.armAckForArrival now false = flow ↔ flow.ackSaturated = true := by
  simp only [armAckForArrival, Bool.false_eq_true, if_false, ackSaturated, decide_eq_true_eq]
  constructor
  · intro h
    by_contra hlt
    have hcount := congrArg newSinceFlush h
    simp only [armAck, if_pos (Nat.lt_of_not_le hlt)] at hcount
    omega
  · intro hfull
    have hne : flow.newSinceFlush ≠ 0 := by
      intro hzero
      rw [hzero] at hfull
      exact absurd hfull (by decide)
    simp [armAck, hne, Nat.not_lt.mpr hfull]

theorem armAckImmediate_eq_self_iff (now : ℕ) :
    ({ flow with ackImmediate := true }).armAckForArrival now false = flow ↔
      (flow.ackSaturated && flow.ackImmediate) = true := by
  rw [Bool.and_eq_true]
  constructor
  · intro h
    have himm : flow.ackImmediate = true := by
      rw [← h]
      rfl
    have hflow : { flow with ackImmediate := true } = flow := by
      rw [← himm]
    rw [hflow, armAckForArrival_eq_self_iff] at h
    exact ⟨h, himm⟩
  · rintro ⟨hfull, himm⟩
    have hflow : { flow with ackImmediate := true } = flow := by
      rw [← himm]
    rw [hflow, armAckForArrival_eq_self_iff]
    exact hfull

theorem commit_ne_self (now : ℕ) (hseen : flow.alreadySeen seq = false)
    (hle : seq ≤ flow.recvHighest) : (flow.commitSeen seq).armAckForArrival now true ≠ flow := by
  intro h
  have hbit : flow.seenTest seq = false := by
    simp only [alreadySeen, if_neg (Nat.not_lt.mpr hle)] at hseen
    split at hseen
    · cases hseen
    · exact hseen
  have hset : ((flow.commitSeen seq).armAckForArrival now true).seenTest seq = true := by
    simp [armAckForArrival, armAck, seenTest, commitSeen, if_neg (Nat.not_lt.mpr hle), put]
  rw [h, hbit] at hset
  cases hset

theorem holdPacket_ne_self
    (hfree : (flow.holdback (slot flow.reorderCap seq)).packetSlot = none) :
    flow.holdPacket env incoming seq ≠ flow := by
  intro h
  have hheld : ((flow.holdPacket env incoming seq).holdback
      (slot flow.reorderCap seq)).packetSlot = some incoming := by
    simp [holdPacket, put]
  rw [h, hfree] at hheld
  cases hheld

/-- Left alone: the association is as it was and nothing is handed on. -/
def Untouched (flow : InAssociation) (r : InAssociation × List Ready) : Prop :=
  r.1 = flow ∧ r.2 = []

theorem deliverUnordered_untouched_iff {flowId : ℕ} (hlife : flow.life = .opened)
    (hid : flow.flowId = flowId) (hmode : isOrdered flow.mode = false) :
    flow.Untouched (flow.deliverUnordered env incoming seq) ↔
      flow.ignores env flowId seq = true := by
  rw [ignores, if_neg (by simp [hlife, hid]), hmode, if_neg Bool.false_ne_true, deliverUnordered,
    Untouched]
  split
  · simp only [armAckForArrival_eq_self_iff, and_true]
  next hseen =>
  rw [Bool.not_eq_true] at hseen
  split
  · next hold => simpa using fun h => commit_ne_self env.now hseen hold.2 h
  split
  · simp only [armAckForArrival_eq_self_iff, and_true]
  split
  · next hpush => simpa using hpush
  · next hpush => simpa using hpush

theorem deliverOrdered_untouched_iff {flowId : ℕ} (hlife : flow.life = .opened)
    (hid : flow.flowId = flowId) (hmode : isOrdered flow.mode = true) :
    flow.Untouched (flow.deliverOrdered env incoming seq) ↔
      flow.ignores env flowId seq = true := by
  rw [ignores, if_neg (by simp [hlife, hid]), hmode, if_pos rfl, deliverOrdered, Untouched]
  split
  · simp only [armAckImmediate_eq_self_iff, and_true]
  split
  · split
    · simp only [armAckForArrival_eq_self_iff, and_true]
    split
    · next hpush => simpa using hpush
    · next hpush => simpa using hpush
  split
  · split
    · next hfree => simpa [hfree] using fun h => holdPacket_ne_self hfree h
    · next hheld => simpa using Option.isSome_iff_ne_none.mpr hheld
  · simp only [armAckImmediate_eq_self_iff, and_true]

theorem deliverIn_untouched_iff (flowId : ℕ) :
    flow.Untouched (flow.deliverIn env flowId flow.epoch seq incoming) ↔
      flow.ignores env flowId seq = true := by
  rw [deliverIn]
  by_cases hopen : flow.life = .opened ∧ flow.flowId = flowId
  · rw [if_pos ⟨rfl, hopen⟩]
    -- a moved cursor is a change already, so the progress stamp adds nothing
    have hstamp : ∀ r : InAssociation × List Ready, flow.Untouched
        (if r.1.recvNext ≠ flow.recvNext then { r.1 with lastProgressMicros := env.now } else r.1,
          r.2) ↔ flow.Untouched r := by
      intro r
      rw [Untouched, Untouched]
      split
      · next hmoved =>
        have hne : ∀ flow' : InAssociation, flow'.recvNext = r.1.recvNext → flow' ≠ flow := by
          rintro flow' hnext rfl
          exact hmoved hnext.symm
        exact ⟨fun h => absurd h.1 (hne _ rfl), fun h => absurd h.1 (hne _ rfl)⟩
      · rfl
    rw [hstamp]
    cases hmode : isOrdered flow.mode with
    | true => exact deliverOrdered_untouched_iff hopen.1 hopen.2 hmode
    | false => exact deliverUnordered_untouched_iff hopen.1 hopen.2 hmode
  · rw [if_neg (fun h => hopen h.2), ignores, if_pos (by tauto)]
    exact ⟨fun _ => rfl, fun _ => ⟨rfl, rfl⟩⟩

theorem drainHoldbackRun_epoch (fuel pushed : ℕ) :
    (drainHoldbackRun env fuel pushed flow).1.epoch = flow.epoch := by
  induction fuel generalizing pushed flow with
  | zero => rfl
  | succ fuel ih =>
    rw [drainHoldbackRun]
    split
    · rfl
    dsimp only
    split
    · rfl
    split
    · rfl
    split
    · rfl
    · exact ih _

theorem deliverIn_epoch (flowId assocEpoch : ℕ) :
    (flow.deliverIn env flowId assocEpoch seq incoming).1.epoch = flow.epoch := by
  have hcommit : ∀ flow' : InAssociation, (flow'.commitSeen seq).epoch = flow'.epoch := by
    intro flow'
    rw [commitSeen]
    split <;> rfl
  have hstep : (if isOrdered flow.mode then flow.deliverOrdered env incoming seq
      else flow.deliverUnordered env incoming seq).1.epoch = flow.epoch := by
    split
    · rw [deliverOrdered]
      split_ifs <;> simp only [drainHoldbackRun_epoch, advanceCursor, holdPacket, armAckForArrival,
        armAck, hcommit, if_true, Bool.false_eq_true, if_false]
    · rw [deliverUnordered]
      split_ifs <;> simp only [armAckForArrival, armAck, hcommit, if_true, Bool.false_eq_true,
        if_false]
  have hstamp : ∀ r : InAssociation, (if r.recvNext ≠ flow.recvNext then
      { r with lastProgressMicros := env.now } else r).epoch = r.epoch := by
    intro r
    split <;> rfl
  rw [deliverIn]
  split
  · exact (hstamp _).trans hstep
  · rfl

end InAssociation

/-! ## Packets that leave a directory as it was -/

section Directory
variable {limits : ReceiveLimits} {env : FlowInEnv} {dir : List InDirEntry} {peer : PeerRef}
  {flowId seq incoming : ℕ} {flowData : UInt8}

/-- The packet registers, reopens or reaches an association that does not ignore it. -/
def actsOn (limits : ReceiveLimits) (env : FlowInEnv) (dir : List InDirEntry) (flowId : ℕ)
    (flowData : UInt8) (seq : ℕ) : Bool :=
  match decodeFlowData flowData with
  | none => false
  | some (mode, flowEpoch, _) =>
    match findFlowSlot dir flowId with
    | none => env.acquired.isSome && decide (dir.length < limits.maxInAssocPerPeer)
    | some (e, _) =>
      match admitOrder limits.flowStallTimeout env.delivery.now e.assoc flowEpoch with
      | .newer => e.bulk == decide (mode = .reliableOrderedBulk)
      | .stale => false
      | .current => !e.assoc.ignores env.delivery flowId seq

theorem getElem?_of_findFlowSlot {e : InDirEntry} {i : ℕ}
    (h : findFlowSlot dir flowId = some (e, i)) : dir[i]? = some e :=
  List.mem_zipIdx_iff_getElem?.mp (List.mem_of_find?_eq_some h)

theorem deliverInSlot_untouched_iff {e : InDirEntry} {i : ℕ} (he : dir[i]? = some e) :
    (deliverInSlot env.delivery dir i flowId e.assoc.epoch seq incoming).1 = dir ∧
      (deliverInSlot env.delivery dir i flowId e.assoc.epoch seq incoming).2 = [] ↔
    e.assoc.ignores env.delivery flowId seq = true := by
  rw [← InAssociation.deliverIn_untouched_iff, deliverInSlot, he, InAssociation.Untouched]
  dsimp only
  refine and_congr_left fun _ => ⟨fun h => ?_, fun h => ?_⟩
  · have hset := congrArg (fun l : List InDirEntry => l[i]?) h
    simp only [List.getElem?_set_self', he, Option.map_eq_map, Option.map_some,
      Option.some.injEq] at hset
    exact congrArg InDirEntry.assoc hset
  · obtain ⟨hlt, rfl⟩ := List.getElem?_eq_some_iff.mp he
    rw [h]
    exact List.set_getElem_self hlt

def leases (dir : List InDirEntry) : List ℕ := dir.map fun e => e.assoc.epoch

theorem deliverInSlot_leases (env : DeliveryEnv) (i epoch : ℕ) :
    leases (deliverInSlot env dir i flowId epoch seq incoming).1 = leases dir := by
  rw [deliverInSlot]
  split
  · rfl
  next e he =>
  obtain ⟨hlt, rfl⟩ := List.getElem?_eq_some_iff.mp he
  rw [leases, List.map_set, InAssociation.deliverIn_epoch, leases]
  exact List.ext_getElem (by simp) (by intro j _ _; simp [List.getElem_set]; rintro rfl; rfl)

theorem admitIn_leases :
    leases (admitIn limits env dir peer flowId flowData).1 =
      leases (admitInFlow limits env dir peer flowId flowData).1 := by
  have hmark : ∀ (l : List InDirEntry) (i : ℕ), leases (l.modify i fun e =>
      { e with assoc := { e.assoc with emitting := true } }) = leases l := by
    intro l i
    exact List.ext_getElem (by simp [leases])
      (by intro j _ _; simp only [leases, List.getElem_map, List.getElem_modify]; split <;> rfl)
  simp only [admitIn]
  split
  · rfl
  · split
    · split
      · rfl
      · exact hmark _ _
    · rfl
  · split
    · split
      · rfl
      · exact hmark _ _
    · rfl
  · rfl
  · rfl

theorem flowIn_leases (seq incoming : ℕ) :
    leases (flowIn limits env dir peer flowId flowData seq incoming).1 =
      leases (admitInFlow limits env dir peer flowId flowData).1 := by
  rw [← admitIn_leases, flowIn]
  split
  · rfl
  · exact deliverInSlot_leases _ _ _

theorem flowIn_ne_of_leases
    (h : leases (admitInFlow limits env dir peer flowId flowData).1 ≠ leases dir) :
    (flowIn limits env dir peer flowId flowData seq incoming).1 ≠ dir := by
  intro heq
  rw [← flowIn_leases seq incoming, heq] at h
  exact h rfl

theorem lease_succ_ne (epoch : ℕ) : u32 (epoch + 1) ≠ epoch := by
  rw [u32]
  omega

theorem flowIn_untouched_iff (limits : ReceiveLimits) (env : FlowInEnv) (dir : List InDirEntry)
    (peer : PeerRef) (flowId : ℕ) (flowData : UInt8) (seq incoming : ℕ) :
    (flowIn limits env dir peer flowId flowData seq incoming).1 = dir ∧
      (flowIn limits env dir peer flowId flowData seq incoming).2.2 = [] ↔
    actsOn limits env dir flowId flowData seq = false := by
  rw [actsOn]
  cases hdecode : decodeFlowData flowData with
  | none => simp [flowIn, admitIn, admitInFlow, hdecode]
  | some data =>
    obtain ⟨mode, flowEpoch, part⟩ := data
    cases hfind : findFlowSlot dir flowId with
    | none =>
      cases hacquired : env.acquired with
      | none => simp [flowIn, admitIn, admitInFlow, hdecode, hfind, hacquired]
      | some old =>
        by_cases hroom : dir.length < limits.maxInAssocPerPeer
        · have hne : leases (admitInFlow limits env dir peer flowId flowData).1 ≠ leases dir := by
            intro h
            have hlen := congrArg List.length h
            simp [admitInFlow, hdecode, hfind, hacquired, hroom, leases] at hlen
          simpa [hroom] using fun h => absurd h (flowIn_ne_of_leases hne)
        · simp [flowIn, admitIn, admitInFlow, hdecode, hfind, hacquired, hroom]
    | some found =>
      obtain ⟨e, i⟩ := found
      have he := getElem?_of_findFlowSlot hfind
      cases horder : admitOrder limits.flowStallTimeout env.delivery.now e.assoc flowEpoch with
      | stale => simp [flowIn, admitIn, admitInFlow, hdecode, hfind, horder]
      | current =>
        have hflow : flowIn limits env dir peer flowId flowData seq incoming =
            ((deliverInSlot env.delivery dir i flowId e.assoc.epoch seq incoming).1, .existing,
              (deliverInSlot env.delivery dir i flowId e.assoc.epoch seq incoming).2) := by
          simp [flowIn, admitIn, admitInFlow, hdecode, hfind, horder]
        rw [hflow, deliverInSlot_untouched_iff he]
        simp [horder]
      | newer =>
        by_cases hbulk : e.bulk = decide (mode = .reliableOrderedBulk)
        · have hne : leases (admitInFlow limits env dir peer flowId flowData).1 ≠ leases dir := by
            intro h
            have hlease := congrArg (fun l : List ℕ => l[i]?) h
            simp [admitInFlow, hdecode, hfind, horder, hbulk, leases, he, resetInAssoc,
              List.getElem?_set_self'] at hlease
            exact lease_succ_ne _ hlease
          simpa [horder, hbulk] using fun h => absurd h (flowIn_ne_of_leases hne)
        · simp [flowIn, admitIn, admitInFlow, hdecode, hfind, horder, hbulk]

end Directory

end BcpFlux.Flow
