import BcpFlux.Flow.Mode
import BcpFlux.Library.Runs
import Mathlib.Data.Int.Basic

/-! # Flow generations

Two counters mint the three-bit generation of a flow.  `lastEpochById` is per flow
id, survives a close and advances by one at every open.  The flow's own byte starts
from it and advances at every attempt to create an association, for any peer.  Only
the first is remembered when the flow is reopened.
-/

namespace BcpFlux.Flow
open Library Function

/-- A flow this socket has open: its mode and the byte every packet of it starts from. -/
structure FlowRecord where
  mode : FlowMode
  flowData : UInt8
  life : FlowLifecycle
deriving DecidableEq, Repr

/-- The part of the flow table that mints generations.  Flows are found by id, live
sending associations by peer and id. -/
structure FlowTable where
  bulkEnabled : Bool
  lastEpochById : ℕ → UInt8
  flows : ℕ → Option FlowRecord
  outAssoc : ℕ → ℕ → Option UInt8

inductive OpenError where
  | invalidParam
  | alreadyInUse
  | limitReached
deriving DecidableEq, Repr

namespace FlowRecord

def nextEpoch (flow : FlowRecord) : UInt8 := (flowDataEpoch flow.flowData + 1) &&& flowEpochMask

def withEpoch (flow : FlowRecord) (epoch : UInt8) : FlowRecord :=
  { flow with flowData := (flow.flowData &&& ~~~(flowEpochMask <<< 3)) ||| (epoch <<< 3) }

end FlowRecord

namespace FlowTable

def init (bulkEnabled : Bool) : FlowTable :=
  ⟨bulkEnabled, fun _ => 0, fun _ => none, fun _ _ => none⟩

/-- `Open`; `slotFree` says whether the flow pool had a slot. -/
def openFlow (t : FlowTable) (flowId : ℕ) (mode : FlowMode) (slotFree : Bool) :
    Except OpenError FlowTable :=
  if flowId = invalidFlowId then .error .invalidParam
  else if mode = .reliableOrderedBulk ∧ t.bulkEnabled = false then .error .invalidParam
  else if t.flows flowId ≠ none then .error .alreadyInUse
  else if !slotFree then .error .limitReached
  else
    let flowEpoch := (t.lastEpochById flowId + 1) &&& flowEpochMask
    match encodeFlowData mode flowEpoch .whole with
    | none => .error .invalidParam
    | some flowData => .ok { t with
        lastEpochById := update t.lastEpochById flowId flowEpoch
        flows := update t.flows flowId (some ⟨mode, flowData, .opened⟩) }

/-- Write one entry of a peer's directory of sending associations. -/
def setAssoc (t : FlowTable) (peer flowId : ℕ) (assoc : Option UInt8) : FlowTable :=
  { t with
    outAssoc := update t.outAssoc peer (update (t.outAssoc peer) flowId assoc) }

/-- `CreateAssociation`.  The generation is minted before the pool and the peer's
directory are asked, so a failed creation spends one too. -/
def createAssociation (t : FlowTable) (peer flowId : ℕ) (acquired inserted : Bool) :
    FlowTable × Option UInt8 :=
  match t.flows flowId with
  | none => (t, none)
  | some flow =>
    if flow.life ≠ .opened then (t, none)
    else
      let flowEpoch := flow.nextEpoch
      let t := { t with flows := update t.flows flowId (some (flow.withEpoch flowEpoch)) }
      if acquired && inserted then
        (t.setAssoc peer flowId (some flowEpoch), some flowEpoch)
      else (t, none)

/-- `BeginClose`. -/
def beginClose (t : FlowTable) (flowId : ℕ) : FlowTable :=
  match t.flows flowId with
  | none => t
  | some flow =>
    if flow.life = .opened then
      { t with flows := update t.flows flowId (some { flow with life := .closing }) }
    else t

/-- The end of `CloseFlow`: its associations are gone and the id is free. -/
def finishClose (t : FlowTable) (flowId : ℕ) : FlowTable :=
  match t.flows flowId with
  | none => t
  | some flow =>
    if flow.life = .closing then
      { t with
        flows := update t.flows flowId none
        outAssoc := fun peer => update (t.outAssoc peer) flowId none }
    else t

def freeAssoc (t : FlowTable) (peer flowId : ℕ) : FlowTable :=
  t.setAssoc peer flowId none

def removePeer (t : FlowTable) (peer : ℕ) : FlowTable :=
  { t with outAssoc := update t.outAssoc peer fun _ => none }

end FlowTable

/-! ## Runs -/

/-- The association a peer and id had last: its generation, and how many opens and mints
of the id had happened when it was born. -/
structure Birth where
  epoch : UInt8
  opens : ℕ
  mints : ℕ
deriving DecidableEq, Repr

/-- The table with a count of what has happened to each id. -/
structure Generations where
  table : FlowTable
  /-- Successful opens of the id. -/
  opens : ℕ → ℕ
  /-- Attempts to create an association since the last open, for any peer. -/
  mints : ℕ → ℕ
  last : ℕ → ℕ → Option Birth

inductive FlowEvent where
  | openFlow (flowId : ℕ) (mode : FlowMode) (slotFree : Bool)
  /-- A send to a peer that may have no association for the id yet. -/
  | send (peer flowId : ℕ) (acquired inserted : Bool)
  | beginClose (flowId : ℕ)
  | finishClose (flowId : ℕ)
  | freeAssoc (peer flowId : ℕ)
  | removePeer (peer : ℕ)

namespace Generations

def init (bulkEnabled : Bool) : Generations :=
  ⟨.init bulkEnabled, fun _ => 0, fun _ => 0, fun _ _ => none⟩

def openFlow (s : Generations) (flowId : ℕ) (mode : FlowMode) (slotFree : Bool) : Generations :=
  match s.table.openFlow flowId mode slotFree with
  | .error _ => s
  | .ok t => { s with
      table := t
      opens := update s.opens flowId (s.opens flowId + 1)
      mints := update s.mints flowId 0 }

def mintsNow (s : Generations) (flowId : ℕ) : Bool :=
  match s.table.flows flowId with
  | none => false
  | some flow => decide (flow.life = .opened)

/-- `AdmitOut` looks the association up and creates it only if there is none. -/
def send (s : Generations) (peer flowId : ℕ) (acquired inserted : Bool) : Generations :=
  if s.table.outAssoc peer flowId ≠ none then s
  else
    let r := s.table.createAssociation peer flowId acquired inserted
    let mints := if s.mintsNow flowId then s.mints flowId + 1 else s.mints flowId
    { s with
      table := r.1
      mints := update s.mints flowId mints
      last := match r.2 with
        | none => s.last
        | some epoch => update s.last peer
            (update (s.last peer) flowId (some ⟨epoch, s.opens flowId, mints⟩)) }

def step (s : Generations) : FlowEvent → Generations
  | .openFlow flowId mode slotFree => s.openFlow flowId mode slotFree
  | .send peer flowId acquired inserted => s.send peer flowId acquired inserted
  | .beginClose flowId => { s with table := s.table.beginClose flowId }
  | .finishClose flowId => { s with table := s.table.finishClose flowId }
  | .freeAssoc peer flowId => { s with table := s.table.freeAssoc peer flowId }
  | .removePeer peer => { s with table := s.table.removePeer peer }

end Generations

/-! ## Three-bit arithmetic -/

def generation (n : ℕ) : UInt8 := UInt8.ofNat (n % 8)

theorem generation_succ (n : ℕ) : (generation n + 1) &&& flowEpochMask = generation (n + 1) := by
  have h : ∀ x : Fin 8, (UInt8.ofNat x + 1) &&& flowEpochMask = UInt8.ofNat ((x + 1) % 8) := by
    decide
  have := h ⟨n % 8, Nat.mod_lt n (by omega)⟩
  simpa [generation, Nat.add_mod] using this

theorem generation_le (n : ℕ) : ¬ generation n > flowEpochMask := by
  have h : ∀ x : Fin 8, ¬ UInt8.ofNat x > flowEpochMask := by decide
  exact h ⟨n % 8, Nat.mod_lt n (by omega)⟩

theorem compareFlowEpoch_generation (m n : ℕ) :
    compareFlowEpoch (generation m) (generation n) = .newer ↔
      1 ≤ ((n : ℤ) - m) % 8 ∧ ((n : ℤ) - m) % 8 ≤ 3 := by
  have h : ∀ x y : Fin 8, compareFlowEpoch (UInt8.ofNat x) (UInt8.ofNat y) = .newer ↔
      1 ≤ ((y : ℤ) - (x : ℤ)) % 8 ∧ ((y : ℤ) - (x : ℤ)) % 8 ≤ 3 := by
    decide
  have := h ⟨m % 8, Nat.mod_lt m (by omega)⟩ ⟨n % 8, Nat.mod_lt n (by omega)⟩
  rw [generation, generation, this]
  dsimp only
  omega

theorem flowDataEpoch_withEpoch (flow : FlowRecord) (n : ℕ) :
    flowDataEpoch (flow.withEpoch (generation n)).flowData = generation n := by
  have h : ∀ d : Fin 256, ∀ x : Fin 8, flowDataEpoch ((UInt8.ofNat d &&& ~~~(flowEpochMask <<< 3)) |||
      (UInt8.ofNat x <<< 3)) = UInt8.ofNat x := by
    decide +kernel
  have hd : UInt8.ofNat flow.flowData.toNat = flow.flowData := UInt8.ofNat_toNat
  have := h ⟨flow.flowData.toNat, flow.flowData.toNat_lt⟩ ⟨n % 8, Nat.mod_lt n (by omega)⟩
  simpa [FlowRecord.withEpoch, generation, hd] using this

theorem encodeFlowData_generation (mode : FlowMode) (n : ℕ) :
    ∃ data, encodeFlowData mode (generation n) .whole = some data ∧
      flowDataEpoch data = generation n := by
  have hsome : ∃ data, encodeFlowData mode (generation n) .whole = some data := by
    simp [encodeFlowData, generation_le, flowPartAllowed]
  obtain ⟨data, hdata⟩ := hsome
  refine ⟨data, hdata, ?_⟩
  have hdec := decode_encodeFlowData mode (generation n) .whole data hdata
  rw [decodeFlowData] at hdec
  split at hdec
  · cases hdec
  · split at hdec
    · simp only [Option.some.injEq, Prod.mk.injEq] at hdec
      exact hdec.2.1
    · cases hdec

/-! ## The two counters add up -/

namespace Generations

/-- The memory counts opens; an open flow's byte and every association ever born count
opens and mints together. -/
structure Inv (s : Generations) : Prop where
  memory : ∀ flowId, s.table.lastEpochById flowId = generation (s.opens flowId)
  byte : ∀ flowId flow, s.table.flows flowId = some flow →
    flowDataEpoch flow.flowData = generation (s.opens flowId + s.mints flowId)
  births : ∀ peer flowId birth, s.last peer flowId = some birth →
    birth.epoch = generation (birth.opens + birth.mints)

theorem inv_init (bulkEnabled : Bool) : (init bulkEnabled).Inv where
  memory := fun _ => rfl
  byte := by simp [init, FlowTable.init]
  births := by simp [init]

theorem openFlow_cases (t : FlowTable) (flowId : ℕ) (mode : FlowMode) (slotFree : Bool)
    (n : ℕ) (hmem : t.lastEpochById flowId = generation n) :
    (∃ err, t.openFlow flowId mode slotFree = .error err) ∨
      ∃ flow, flowDataEpoch flow.flowData = generation (n + 1) ∧
        t.openFlow flowId mode slotFree = .ok { t with
          lastEpochById := update t.lastEpochById flowId (generation (n + 1))
          flows := update t.flows flowId (some flow) } := by
  rw [FlowTable.openFlow]
  split_ifs
  · exact Or.inl ⟨_, rfl⟩
  · exact Or.inl ⟨_, rfl⟩
  · exact Or.inl ⟨_, rfl⟩
  · exact Or.inl ⟨_, rfl⟩
  · obtain ⟨data, hdata, hepoch⟩ := encodeFlowData_generation mode (n + 1)
    rw [hmem, generation_succ]
    simp only [hdata]
    exact Or.inr ⟨⟨mode, data, .opened⟩, hepoch, rfl⟩

theorem createAssociation_cases (t : FlowTable) (peer flowId : ℕ) (acquired inserted : Bool) :
    (t.createAssociation peer flowId acquired inserted = (t, none) ∧
        ∀ flow, t.flows flowId = some flow → flow.life ≠ .opened) ∨
      ∃ flow, t.flows flowId = some flow ∧ flow.life = .opened ∧
        (t.createAssociation peer flowId acquired inserted).1.flows =
          update t.flows flowId (some (flow.withEpoch flow.nextEpoch)) ∧
        (t.createAssociation peer flowId acquired inserted).1.lastEpochById = t.lastEpochById ∧
        ∀ epoch, (t.createAssociation peer flowId acquired inserted).2 = some epoch →
          epoch = flow.nextEpoch := by
  rw [FlowTable.createAssociation]
  cases hflow : t.flows flowId with
  | none => exact Or.inl ⟨rfl, by simp⟩
  | some flow =>
    by_cases hlife : flow.life = .opened
    · refine Or.inr ⟨flow, rfl, hlife, ?_⟩
      simp only [hlife, ne_eq, not_true_eq_false, if_false]
      split
      · exact ⟨rfl, rfl, fun epoch h => (Option.some.inj h).symm⟩
      · exact ⟨rfl, rfl, fun epoch h => by cases h⟩
    · simp only [ne_eq, hlife, not_false_eq_true, if_true]
      exact Or.inl ⟨trivial, fun f hf => Option.some.inj hf ▸ hlife⟩

theorem nextEpoch_eq {flow : FlowRecord} {n : ℕ}
    (h : flowDataEpoch flow.flowData = generation n) : flow.nextEpoch = generation (n + 1) := by
  rw [FlowRecord.nextEpoch, h, generation_succ]

theorem Inv.openFlow {s : Generations} (h : s.Inv) (flowId : ℕ) (mode : FlowMode)
    (slotFree : Bool) : (s.openFlow flowId mode slotFree).Inv := by
  rw [Generations.openFlow]
  rcases openFlow_cases s.table flowId mode slotFree _ (h.memory flowId) with
    ⟨err, heq⟩ | ⟨flow, hepoch, heq⟩
  · rw [heq]
    exact h
  rw [heq]
  constructor
  · intro id
    simp only [update_apply]
    split
    · rfl
    · exact h.memory id
  · intro id flow' hflow'
    simp only [update_apply] at hflow' ⊢
    by_cases hid : id = flowId
    · simp only [hid, if_true, Option.some.injEq] at hflow' ⊢
      rw [← hflow']
      exact hepoch
    · simp only [hid, if_false] at hflow' ⊢
      exact h.byte id flow' hflow'
  · exact h.births

theorem Inv.send {s : Generations} (h : s.Inv) (peer flowId : ℕ) (acquired inserted : Bool) :
    (s.send peer flowId acquired inserted).Inv := by
  rw [Generations.send]
  split
  case isTrue => exact h
  case isFalse =>
  rcases createAssociation_cases s.table peer flowId acquired inserted with
    ⟨heq, hnot⟩ | ⟨flow, hflow, hlife, hflows, hmem, hepoch⟩
  · -- no open flow under the id: nothing is minted
    have hmint : s.mintsNow flowId = false := by
      rw [mintsNow]
      cases hf : s.table.flows flowId with
      | none => rfl
      | some flow => simpa using hnot flow hf
    simp only [heq, hmint, Bool.false_eq_true, if_false, update_eq_self]
    exact h
  · have hmint : s.mintsNow flowId = true := by simp [mintsNow, hflow, hlife]
    have hnext : flow.nextEpoch = generation (s.opens flowId + (s.mints flowId + 1)) :=
      nextEpoch_eq (h.byte flowId flow hflow)
    simp only [hmint, if_true]
    constructor
    · intro id
      simp only [hmem]
      exact h.memory id
    · intro id flow' hflow'
      simp only [hflows, update_apply] at hflow' ⊢
      by_cases hid : id = flowId
      · simp only [hid, if_true, Option.some.injEq] at hflow' ⊢
        rw [← hflow', hnext, flowDataEpoch_withEpoch]
      · simp only [hid, if_false] at hflow' ⊢
        exact h.byte id flow' hflow'
    · intro p id birth hbirth
      cases hr : (s.table.createAssociation peer flowId acquired inserted).2 with
      | none =>
        simp only [hr] at hbirth
        exact h.births p id birth hbirth
      | some epoch =>
        simp only [hr, update_apply] at hbirth
        by_cases hp : p = peer
        · simp only [hp, if_true, update_apply] at hbirth
          by_cases hid : id = flowId
          · simp only [hid, if_true, Option.some.injEq] at hbirth
            rw [← hbirth, hepoch epoch hr]
            exact hnext
          · simp only [hid, if_false] at hbirth
            exact h.births peer id birth hbirth
        · simp only [hp, if_false] at hbirth
          exact h.births p id birth hbirth

theorem Inv.close {s : Generations} (h : s.Inv) {t : FlowTable}
    (hmem : t.lastEpochById = s.table.lastEpochById)
    (hbyte : ∀ flowId flow, t.flows flowId = some flow →
      ∃ flow', s.table.flows flowId = some flow' ∧ flow.flowData = flow'.flowData) :
    Inv { s with table := t } where
  memory := fun flowId => (congrFun hmem flowId).trans (h.memory flowId)
  byte := by
    intro flowId flow hflow
    obtain ⟨flow', hflow', heq⟩ := hbyte flowId flow hflow
    rw [heq]
    exact h.byte flowId flow' hflow'
  births := h.births

theorem Inv.step {s : Generations} (h : s.Inv) (e : FlowEvent) : (s.step e).Inv := by
  cases e with
  | openFlow flowId mode slotFree => exact h.openFlow flowId mode slotFree
  | send peer flowId acquired inserted => exact h.send peer flowId acquired inserted
  | beginClose flowId =>
    simp only [Generations.step, FlowTable.beginClose]
    cases hflow : s.table.flows flowId with
    | none => exact h
    | some flow =>
      dsimp only
      split
      · refine h.close rfl ?_
        intro id flow' hflow'
        simp only [update_apply] at hflow'
        by_cases hid : id = flowId
        · simp only [hid, if_true, Option.some.injEq] at hflow'
          exact ⟨flow, hid ▸ hflow, hflow' ▸ rfl⟩
        · simp only [hid, if_false] at hflow'
          exact ⟨flow', hflow', rfl⟩
      · exact h
  | finishClose flowId =>
    simp only [Generations.step, FlowTable.finishClose]
    cases hflow : s.table.flows flowId with
    | none => exact h
    | some flow =>
      dsimp only
      split
      · refine h.close rfl ?_
        intro id flow' hflow'
        simp only [update_apply] at hflow'
        split at hflow'
        · cases hflow'
        · exact ⟨flow', hflow', rfl⟩
      · exact h
  | freeAssoc peer flowId => exact h.close rfl fun _ flow hflow => ⟨flow, hflow, rfl⟩
  | removePeer peer => exact h.close rfl fun _ flow hflow => ⟨flow, hflow, rfl⟩

/-- In every run, an association created for a peer and id that had an earlier one compares
newer exactly when the reopens of the id since then, plus this creation's place among the
mints of its open, less the earlier one's place, is 1, 2 or 3 modulo 8. -/
theorem generation_newer_iff (bulkEnabled : Bool) (events : List FlowEvent)
    (peer flowId : ℕ) (acquired inserted : Bool) (prev : Birth) (epoch : UInt8) :
    let s := run step (init bulkEnabled) events
    s.last peer flowId = some prev →
    (s.table.createAssociation peer flowId acquired inserted).2 = some epoch →
    (compareFlowEpoch prev.epoch epoch = .newer ↔
      let forward := ((s.opens flowId : ℤ) - prev.opens + (s.mints flowId + 1) - prev.mints) % 8
      1 ≤ forward ∧ forward ≤ 3) := by
  intro s hprev hcreate
  have hinv : s.Inv := run_invariant step Inv (fun _ _ => True) (fun _ e _ h => h.step e)
    (inv_init bulkEnabled) (along_true _ _ _)
  rcases createAssociation_cases s.table peer flowId acquired inserted with
    ⟨heq, -⟩ | ⟨flow, hflow, -, -, -, hepoch⟩
  · rw [heq] at hcreate
    cases hcreate
  · rw [hepoch epoch hcreate, nextEpoch_eq (hinv.byte flowId flow hflow),
      hinv.births peer flowId prev hprev, compareFlowEpoch_generation]
    have harith : ((s.opens flowId + s.mints flowId + 1 : ℕ) : ℤ) - (prev.opens + prev.mints : ℕ) =
        (s.opens flowId : ℤ) - prev.opens + (s.mints flowId + 1) - prev.mints := by
      omega
    rw [harith]

/-- A fresh flow, its peer lost once: the second association is newer. -/
theorem generation_newer_after_peer_loss :
    let events : List FlowEvent := [.openFlow 7 .reliableOrdered true, .send 1 7 true true,
      .removePeer 1]
    let s := run step (init false) events
    s.last 1 7 = some ⟨2, 1, 1⟩ ∧ (s.table.createAssociation 1 7 true true).2 = some 3 ∧
      compareFlowEpoch 2 3 = .newer := by
  intro events s
  refine ⟨by decide, by decide, ?_⟩
  exact (generation_newer_iff false events 1 7 true true ⟨2, 1, 1⟩ 3 (by decide)
    (by decide)).mpr (by decide)

/-- One peer, lost once, then the flow closed and reopened: the new association repeats
the generation of the one before it. -/
theorem generation_repeats_after_reopen :
    let events : List FlowEvent := [.openFlow 7 .reliableOrdered true, .send 1 7 true true,
      .removePeer 1, .send 1 7 true true, .beginClose 7, .freeAssoc 1 7, .finishClose 7,
      .openFlow 7 .reliableOrdered true]
    let s := run step (init false) events
    ∃ prev epoch, s.last 1 7 = some prev ∧
      (s.table.createAssociation 1 7 true true).2 = some epoch ∧
      compareFlowEpoch prev.epoch epoch = .current := by
  exact ⟨⟨3, 1, 2⟩, 3, by decide, by decide, by decide⟩

end Generations

end BcpFlux.Flow
