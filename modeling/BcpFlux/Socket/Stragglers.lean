import BcpFlux.Socket.ReceiveSlots

/-! # Stragglers and live flows

A packet of a generation that compares as stale is believed once the association has made
no progress for the stall timeout, and then it resets the association.  In the
ordered modes every delivery moves the cursor, so a straggler finds a live association
protected.  The unordered modes have no cursor: the stamp stays where the generation began.
-/

namespace BcpFlux.Socket
open Library Function
open BcpFlux.Flow (InAssociation InDirEntry FlowAdmit FlowMode FlowPart Ready findFlowSlot admitIn
  decodeFlowData compareFlowEpoch isOrdered findFlowSlot_eq_some_iff)

/-! ## Lookups in a directory that changed -/

section Lookup
variable {dir : List InDirEntry} {flowId i j : ℕ} {e e' x : InDirEntry}

theorem findFlowSlot_set (he : dir[i]? = some e)
    (h : findFlowSlot (dir.set i e') flowId = some (x, j)) (hid : e'.flowId = e.flowId) :
    x = e' ∧ j = i ∧ findFlowSlot dir flowId = some (e, i) ∨
      findFlowSlot dir flowId = some (x, j) := by
  obtain ⟨hget, hx, hbefore⟩ := findFlowSlot_eq_some_iff.mp h
  have hlt : i < dir.length := (List.getElem?_eq_some_iff.mp he).1
  by_cases hj : j = i
  · subst hj
    rw [List.getElem?_set_self hlt, Option.some.injEq] at hget
    subst hget
    refine Or.inl ⟨rfl, rfl, findFlowSlot_eq_some_iff.mpr ⟨he, hid ▸ hx, ?_⟩⟩
    intro k hk y hy
    exact hbefore k hk y (by rw [List.getElem?_set_ne (by omega)]; exact hy)
  · rw [List.getElem?_set_ne (Ne.symm hj)] at hget
    refine Or.inr (findFlowSlot_eq_some_iff.mpr ⟨hget, hx, ?_⟩)
    intro k hk y hy
    by_cases hki : k = i
    · subst hki
      rw [he, Option.some.injEq] at hy
      rw [← hy, ← hid]
      exact hbefore k hk e' (List.getElem?_set_self hlt)
    · exact hbefore k hk y (by rw [List.getElem?_set_ne (Ne.symm hki)]; exact hy)

theorem findFlowSlot_concat (hne : e.flowId ≠ flowId)
    (h : findFlowSlot (dir ++ [e]) flowId = some (x, j)) : findFlowSlot dir flowId = some (x, j) := by
  obtain ⟨hget, hx, hbefore⟩ := findFlowSlot_eq_some_iff.mp h
  have hlt : j < dir.length := by
    by_contra hge
    rw [List.getElem?_append_right (by omega)] at hget
    have hlast := List.mem_of_getElem? hget
    rw [List.mem_singleton.mp hlast] at hx
    exact hne hx
  rw [List.getElem?_append_left hlt] at hget
  refine findFlowSlot_eq_some_iff.mpr ⟨hget, hx, ?_⟩
  intro k hk y hy
  exact hbefore k hk y (by rw [List.getElem?_append_left (by omega)]; exact hy)

theorem findFlowSlot_of_mark {k : ℕ}
    (h : findFlowSlot (dir.modify k Flow.markEmitting) flowId = some (x, j)) :
    ∃ y, findFlowSlot dir flowId = some (y, j) ∧ (x = y ∨ x = Flow.markEmitting y) := by
  cases hk : dir[k]? with
  | none =>
    rw [List.modify_eq_self (List.getElem?_eq_none_iff.mp hk)] at h
    exact ⟨x, h, Or.inl rfl⟩
  | some e =>
    have hset : dir.modify k Flow.markEmitting = dir.set k (Flow.markEmitting e) := by
      rw [List.modify_eq_set_getElem?, hk]
      rfl
    rw [hset] at h
    rcases findFlowSlot_set hk h rfl with ⟨rfl, rfl, hfind⟩ | hfind
    · exact ⟨e, hfind, Or.inr rfl⟩
    · exact ⟨x, hfind, Or.inl rfl⟩

end Lookup

/-! ## The stamp and the last delivery -/

namespace Receiver

/-- A directory's ordered associations are stamped no earlier than they last delivered. -/
def DirStamped (dir : List InDirEntry) (last : ℕ → Option ℕ) : Prop :=
  ∀ flowId e i t, findFlowSlot dir flowId = some (e, i) → isOrdered e.assoc.mode = true →
    last flowId = some t → t ≤ e.assoc.lastProgressMicros

structure Stamped (s : Receiver) : Prop where
  past : ∀ p flowId t, s.lastDelivery p flowId = some t → t ≤ s.clock
  progress : ∀ p, DirStamped (s.dirs p) (s.lastDelivery p)

variable {cfg : ReceiveConfig} {hand : Multiset ℕ} {s s' : Receiver}

theorem Stamped.start (grants : ℕ → ℕ) : (start grants).Stamped where
  past := by simp [Receiver.start]
  progress := by
    intro p flowId e i t h
    simp [Receiver.start, findFlowSlot] at h

def stamps (s : Receiver) : ℕ × (ℕ → List InDirEntry) × (ℕ → ℕ → Option ℕ) :=
  (s.clock, s.dirs, s.lastDelivery)

theorem Stamped.congr (h : s.Stamped) (hsame : s'.stamps = s.stamps) : s'.Stamped := by
  have hclock : s'.clock = s.clock := congrArg Prod.fst hsame
  have hdirs : s'.dirs = s.dirs := congrArg (fun v => v.2.1) hsame
  have hlast : s'.lastDelivery = s.lastDelivery := congrArg (fun v => v.2.2) hsame
  constructor
  · rw [hclock, hlast]
    exact h.past
  · rw [hdirs, hlast]
    exact h.progress

theorem Stamped.tick (h : s.Stamped) (dt : ℕ) : { s with clock := s.clock + dt }.Stamped where
  past := fun p flowId t ht => (h.past p flowId t ht).trans (Nat.le_add_right _ _)
  progress := h.progress

variable {dir : List InDirEntry} {last : ℕ → Option ℕ}

theorem Stamped.peer (h : s.Stamped) (p : ℕ)
    (hpast : ∀ flowId t, last flowId = some t → t ≤ s.clock) (hprogress : DirStamped dir last)
    (hsame : s'.stamps =
      (s.clock, update s.dirs p dir, update s.lastDelivery p last)) :
    s'.Stamped := by
  have hclock : s'.clock = s.clock := congrArg Prod.fst hsame
  have hdirs : s'.dirs = update s.dirs p dir := congrArg (fun v => v.2.1) hsame
  have hlast : s'.lastDelivery = update s.lastDelivery p last :=
    congrArg (fun v => v.2.2) hsame
  constructor
  · intro q flowId t ht
    rw [hclock]
    rw [hlast] at ht
    by_cases hq : q = p
    · subst hq
      rw [update_self] at ht
      exact hpast flowId t ht
    · rw [update_of_ne hq] at ht
      exact h.past q flowId t ht
  · intro q
    rw [hdirs, hlast]
    by_cases hq : q = p
    · subst hq
      rw [update_self, update_self]
      exact hprogress
    · rw [update_of_ne hq, update_of_ne hq]
      exact h.progress q

theorem DirStamped.set (h : DirStamped dir last)
    {i : ℕ} {e : InDirEntry} (he : dir[i]? = some e) (assoc : InAssociation)
    (hmode : assoc.mode = e.assoc.mode)
    (hstamp : ∀ t, last e.flowId = some t → t ≤ e.assoc.lastProgressMicros →
      t ≤ assoc.lastProgressMicros) :
    DirStamped (dir.set i { e with assoc := assoc }) last := by
  intro flowId x j t hfind hordered hlast
  rcases findFlowSlot_set he hfind rfl with ⟨rfl, -, hold⟩ | hold
  · have hid : e.flowId = flowId := (findFlowSlot_eq_some_iff.mp hold).2.1
    have hordered' : isOrdered e.assoc.mode = true := by
      rw [← hmode]
      exact hordered
    exact hstamp t (hid.symm ▸ hlast) (h flowId e i t hold hordered' hlast)
  · exact h flowId x j t hold hordered hlast

theorem DirStamped.mark (h : DirStamped dir last)
    (k : ℕ) : DirStamped (dir.modify k Flow.markEmitting) last := by
  intro flowId x j t hfind hordered hlast
  obtain ⟨y, hold, rfl | rfl⟩ := findFlowSlot_of_mark hfind
  · exact h flowId x j t hold hordered hlast
  · exact h flowId y j t hold hordered hlast

/-! ## Operations -/

theorem DirStamped.admission {limits : Flow.ReceiveLimits} {env : Flow.FlowInEnv}
    {peer : Flow.PeerRef} {flowId : ℕ} {flowData : UInt8}
    {r : List InDirEntry × FlowAdmit} (h : DirStamped dir last)
    (hadmission : Flow.Admission limits env dir peer flowId flowData r) :
    DirStamped r.1 (if r.2 = .registered ∨ r.2 = .reopened then update last flowId none
      else last) := by
  cases hadmission with
  | refused verdict away =>
    rcases away with rfl | rfl <;> exact h
  | existing => exact h
  | reopened mode flowEpoch part e i decoded found newer fits =>
    simp only [or_true, if_true]
    obtain ⟨hget, hid, -⟩ := findFlowSlot_eq_some_iff.mp found
    intro id x j t hfind hordered hlast
    by_cases hne : id = flowId
    · rw [hne, update_self] at hlast
      cases hlast
    · rw [update_of_ne hne] at hlast
      rcases findFlowSlot_set hget hfind rfl with ⟨-, -, hold⟩ | hold
      · have hid' : e.flowId = id := (findFlowSlot_eq_some_iff.mp hold).2.1
        exact absurd (hid'.symm.trans hid) hne
      · exact h id x j t hold hordered hlast
  | registered mode flowEpoch part old decoded missing =>
    simp only [true_or, if_true]
    intro id x j t hfind hordered hlast
    by_cases hne : id = flowId
    · rw [hne, update_self] at hlast
      cases hlast
    · rw [update_of_ne hne] at hlast
      exact h id x j t (findFlowSlot_concat (Ne.symm hne) hfind) hordered hlast

theorem DirStamped.admitIn (h : DirStamped dir last)
    (limits : Flow.ReceiveLimits) (env : Flow.FlowInEnv) (peer : Flow.PeerRef) (flowId : ℕ)
    (flowData : UInt8) :
    DirStamped (admitIn limits env dir peer flowId flowData).1
      (if (Flow.admitIn limits env dir peer flowId flowData).2.1 = .registered ∨
          (Flow.admitIn limits env dir peer flowId flowData).2.1 = .reopened
        then update last flowId none else last) := by
  have hflow := h.admission (Flow.admitInFlow_admission limits env dir peer flowId flowData)
  obtain ⟨hverdict, hdir | ⟨k, hdir⟩⟩ := Flow.admitIn_dir limits env dir peer flowId flowData
  · rw [hverdict, hdir]
    exact hflow
  · rw [hverdict, hdir]
    exact hflow.mark k

theorem Stamped.admitPacket (h : s.Stamped) (cfg : ReceiveConfig) (laneCapacity : ℕ) (m : FlowPacket)
    (acquired : Option InAssociation) (recorded : Bool) :
    (s.admitPacket cfg laneCapacity m acquired recorded).1.Stamped := by
  have hadmitted := (h.progress m.peerSlot).admitIn cfg.limits
    ⟨s.deliveryEnv cfg laneCapacity m.peerSlot, acquired, recorded⟩
    ⟨m.peerSlot, m.addr, m.id⟩ m.flowId m.flowData
  unfold Receiver.admitPacket
  generalize admitIn cfg.limits
    ⟨s.deliveryEnv cfg laneCapacity m.peerSlot, acquired, recorded⟩ (s.dirs m.peerSlot)
    ⟨m.peerSlot, m.addr, m.id⟩ m.flowId m.flowData = a at hadmitted ⊢
  apply h.peer m.peerSlot _ hadmitted
  · by_cases hfresh : a.2.1 = .registered ∨ a.2.1 = .reopened
    · simp only [stamps, hfresh, decide_true, if_true]
      rfl
    · simp only [stamps, hfresh, decide_false, Bool.false_eq_true, if_false,
        update_eq_self]
      rfl
  · intro flowId t ht
    apply h.past m.peerSlot flowId t
    split_ifs at ht with hfresh
    · by_cases hid : flowId = m.flowId
      · rw [hid, update_self] at ht
        cases ht
      · rw [update_of_ne hid] at ht
        exact ht
    · exact ht

theorem Stamped.deliver (h : s.Stamped) (hinv : s.Inv cfg hand) (laneCapacity : ℕ) (m : FlowPacket)
    (slot i epoch : ℕ) {e : InDirEntry}
    (hfind : findFlowSlot (s.dirs m.peerSlot) m.flowId = some (e, i)) :
    (s.deliver cfg laneCapacity m slot i epoch).Stamped := by
  obtain ⟨he, hid, -⟩ := findFlowSlot_eq_some_iff.mp hfind
  have hshape : e.assoc.Shaped := hinv.shaped m.peerSlot e (List.mem_of_getElem? he)
  have hdelivers := InAssociation.deliverIn_delivers (s.deliveryEnv cfg laneCapacity m.peerSlot)
    e.assoc hshape m.flowId epoch m.seq slot
  unfold Receiver.deliver
  rw [he]
  dsimp only
  generalize e.assoc.deliverIn (s.deliveryEnv cfg laneCapacity m.peerSlot) m.flowId epoch
    m.seq slot = r at hdelivers ⊢
  have hmode : r.1.mode = e.assoc.mode := congrArg (fun c => c.2.1) hdelivers.core
  have hprogress := hdelivers.progress
  -- what the deliveries of this peer are afterwards
  have hlast : ∀ flowId t, (if r.2 = [] then s.lastDelivery m.peerSlot
      else update (s.lastDelivery m.peerSlot) m.flowId (some s.clock)) flowId = some t →
      t ≤ s.clock := by
    intro flowId t ht
    split_ifs at ht
    · exact h.past m.peerSlot flowId t ht
    · by_cases hflow : flowId = m.flowId
      · rw [hflow, update_self, Option.some.injEq] at ht
        exact Nat.le_of_eq ht.symm
      · rw [update_of_ne hflow] at ht
        exact h.past m.peerSlot flowId t ht
  have hstamped : DirStamped ((s.dirs m.peerSlot).set i { e with assoc := r.1 })
      (if r.2 = [] then s.lastDelivery m.peerSlot
        else update (s.lastDelivery m.peerSlot) m.flowId (some s.clock)) := by
    by_cases hready : r.2 = []
    · simp only [hready, ne_eq, not_true, and_false, if_false] at hprogress
      rw [if_pos hready]
      apply (h.progress m.peerSlot).set he r.1 hmode
      intro t _ hle
      rw [hprogress]
      exact hle
    · rw [if_neg hready]
      intro flowId x j t hfound hordered hdelivered
      rcases findFlowSlot_set he hfound rfl with ⟨rfl, -, hold⟩ | hold
      · -- this association: the stamp is the time of the delivery
        have hflow : e.flowId = flowId := (findFlowSlot_eq_some_iff.mp hold).2.1
        rw [← hflow, hid, update_self, Option.some.injEq] at hdelivered
        rw [if_pos ⟨hmode ▸ hordered, hready⟩] at hprogress
        rw [hprogress, ← hdelivered]
        exact Nat.le_refl _
      · by_cases hflow : flowId = m.flowId
        · -- a lookup of this id finds the entry that was rewritten
          subst hflow
          rw [hfind, Option.some.injEq, Prod.mk.injEq] at hold
          obtain ⟨hget, -, -⟩ := findFlowSlot_eq_some_iff.mp hfound
          have hlt : i < (s.dirs m.peerSlot).length := (List.getElem?_eq_some_iff.mp he).1
          rw [← hold.2, List.getElem?_set_self hlt, Option.some.injEq] at hget
          subst hget
          rw [update_self, Option.some.injEq] at hdelivered
          rw [if_pos ⟨hmode ▸ hordered, hready⟩] at hprogress
          rw [hprogress, ← hdelivered]
          exact Nat.le_refl _
        · rw [update_of_ne hflow] at hdelivered
          exact h.progress m.peerSlot flowId x j t hold hordered hdelivered
  apply h.peer m.peerSlot hlast hstamped
  by_cases hready : r.2 = []
  · simp only [hready, if_true, update_eq_self]
    split_ifs <;> rfl
  · simp only [hready, if_false]
    split_ifs <;> rfl

theorem admitPacket_lookup (cfg : ReceiveConfig) (s : Receiver) (laneCapacity : ℕ) (m : FlowPacket)
    (acquired : Option InAssociation) (recorded : Bool) (i epoch : ℕ)
    (h : (s.admitPacket cfg laneCapacity m acquired recorded).2 = some (i, epoch)) :
    ∃ e, findFlowSlot ((s.admitPacket cfg laneCapacity m acquired recorded).1.dirs m.peerSlot)
      m.flowId = some (e, i) := by
  simp only [Receiver.admitPacket, update_self]
  rcases Flow.admitIn_found _ _ _ _ _ _ h with
    ⟨hdir, -, mode, flowEpoch, part, e, -, hfind, -⟩ | ⟨-, e, old, params, hfind, -⟩
  · rw [hdir]
    exact ⟨e, hfind⟩
  · exact ⟨e, hfind⟩

theorem Stamped.flowPacket {slot : ℕ} (h : s.Stamped) (hinv : s.Inv cfg {slot}) (laneCapacity : ℕ)
    (m : FlowPacket) (hp : m.peerSlot < cfg.maxPeers) (acquired : Option InAssociation)
    (recorded : Bool) : (s.flowPacket cfg laneCapacity m slot acquired recorded).Stamped := by
  have hentered := h.admitPacket cfg laneCapacity m acquired recorded
  have hadmitInv := hinv.admitPacket laneCapacity m hp acquired recorded
  have hlookup := admitPacket_lookup cfg s laneCapacity m acquired recorded
  unfold Receiver.flowPacket
  split_ifs with hfields
  · exact h.congr rfl
  · generalize s.admitPacket cfg laneCapacity m acquired recorded = a at hentered hadmitInv hlookup ⊢
    obtain ⟨s', _ | ⟨i, epoch⟩⟩ := a
    · exact hentered.congr rfl
    · obtain ⟨e, hfind⟩ := hlookup i epoch rfl
      exact hentered.deliver hadmitInv laneCapacity m slot i epoch hfind

theorem poll_stamps (s : Receiver) (lane max : ℕ) : (s.poll lane max).stamps = s.stamps := by
  induction max generalizing s with
  | zero => rfl
  | succ max ih =>
    rw [Receiver.poll]
    cases s.lanes lane with
    | nil => rfl
    | cons entry rest =>
      rw [ih, handOver]
      cases entry.peerSlot <;> rfl

theorem reclaimJammed_progress (stallTimeout now : ℕ) (flow : InAssociation)
    (t : ℕ) (hpast : t ≤ now) (hle : t ≤ flow.lastProgressMicros) :
    t ≤ (flow.reclaimJammed stallTimeout now).1.lastProgressMicros := by
  rw [InAssociation.reclaimJammed]
  split_ifs
  · exact hpast
  · exact hle

theorem Stamped.reclaimEntry (h : s.Stamped) (p i : ℕ) : (s.reclaimEntry cfg p i).Stamped := by
  unfold Receiver.reclaimEntry
  cases he : (s.dirs p)[i]? with
  | none => exact h
  | some e =>
    have hcore := InAssociation.reclaimJammed_core cfg.limits.flowStallTimeout s.clock e.assoc
    have hdir := (h.progress p).set he
      (e.assoc.reclaimJammed cfg.limits.flowStallTimeout s.clock).1
      (congrArg (fun c => c.2.1) hcore)
      (fun t ht hle => reclaimJammed_progress _ _ _ t (h.past p _ t ht) hle)
    apply h.peer p (h.past p) hdir
    rw [update_eq_self]
    rfl

theorem Stamped.reclaim (h : s.Stamped) (p : ℕ) : (s.reclaim cfg p).Stamped := by
  unfold Receiver.reclaim
  induction List.range (s.dirs p).length generalizing s with
  | nil => exact h
  | cons i rest ih => exact ih (h.reclaimEntry p i)

theorem takeAckEntry_progress (flow : InAssociation) (now room : ℕ) :
    (flow.takeAckEntry now room).1.lastProgressMicros = flow.lastProgressMicros := by
  rw [InAssociation.takeAckEntry]
  split_ifs
  · dsimp only
    split_ifs <;> rfl
  · rfl

theorem Stamped.flushAck (h : s.Stamped) (p i room : ℕ) : (s.flushAck p i room).Stamped := by
  unfold Receiver.flushAck
  cases he : (s.dirs p)[i]? with
  | none => exact h
  | some e =>
    have hdir := (h.progress p).set he (e.assoc.takeAckEntry s.clock room).1
      (InAssociation.takeAckEntry_frame e.assoc s.clock room).2.1
      (fun t _ hle => by rw [takeAckEntry_progress]; exact hle)
    apply h.peer p (h.past p) hdir
    rw [update_eq_self]
    rfl

theorem sweepPeer_stamps (s : Receiver) (p : ℕ) (dir : List InDirEntry) (hdir : s.dirs p = dir) :
    (s.sweepPeer p dir.length).stamps =
      (s.clock, update s.dirs p [], s.lastDelivery) := by
  induction dir generalizing s with
  | nil =>
    rw [List.length_nil, Receiver.sweepPeer, ← hdir, update_eq_self]
    rfl
  | cons e rest ih =>
    rw [List.length_cons, Receiver.sweepPeer, hdir]
    rw [ih _ (update_self _ _ _)]
    simp only [Receiver.giveBack, update_idem]

theorem Stamped.removePeer (h : s.Stamped) (p : ℕ) : (s.sweepPeer p (s.dirs p).length).Stamped := by
  have hempty : DirStamped [] (s.lastDelivery p) := by
    intro flowId e i t hfind
    simp [findFlowSlot] at hfind
  apply h.peer p (h.past p) hempty
  rw [sweepPeer_stamps s p _ rfl, update_eq_self]

theorem Stamped.stepWith (h : s.Stamped) (hinv : s.Inv cfg 0) (laneCapacity : ℕ) (e : Event) :
    (s.stepWith cfg laneCapacity e).Stamped := by
  cases e with
  | flowPacket m slot acquired recorded =>
    rw [Receiver.stepWith]
    split_ifs with hguard
    · have hlease : (s.lease slot).Stamped := h.congr rfl
      exact hlease.flowPacket (hinv.lease hguard.1) laneCapacity m hguard.2 acquired recorded
    · exact h
  | plainPacket key slot =>
    rw [Receiver.stepWith]
    split_ifs with hguard
    · apply h.congr
      rw [Receiver.plainPacket]
      split_ifs <;> rfl
    · exact h
  | poll lane max =>
    rw [Receiver.stepWith]
    split_ifs with hlane
    · exact h.congr (poll_stamps s lane max)
    · exact h
  | releaseHandle i =>
    apply h.congr
    rw [Receiver.stepWith, Receiver.releaseHandle]
    cases s.handles[i]? <;> rfl
  | reclaim p =>
    rw [Receiver.stepWith]
    split_ifs with hp
    · exact h.reclaim p
    · exact h
  | flushAck p i room =>
    rw [Receiver.stepWith]
    split_ifs with hp
    · exact h.flushAck p i room
    · exact h
  | removePeer p =>
    rw [Receiver.stepWith]
    split_ifs with hp
    · exact h.removePeer p
    · exact h
  | seedPeer p recvGrant => exact h.congr rfl
  | setGrant p slots => exact h.congr rfl

theorem Stamped.run (cfg : ReceiveConfig) (grants : ℕ → ℕ) (es : List (ℕ × Event)) :
    (run (Receiver.step cfg) (Receiver.start grants) es).Stamped := by
  have h : (Library.run (Receiver.step cfg) (Receiver.start grants) es).Inv cfg 0 ∧
      (Library.run (Receiver.step cfg) (Receiver.start grants) es).Stamped := by
    apply run_invariant (Receiver.step cfg) (fun s => s.Inv cfg 0 ∧ s.Stamped) (fun _ _ => True) _
      ⟨Inv.start cfg grants, Stamped.start grants⟩ (along_true _ _ _)
    rintro s e - ⟨hinv, h⟩
    exact ⟨(hinv.tick _).stepWith _ _, (h.tick e.1).stepWith (hinv.tick _) _ _⟩
  exact h.2

/-! ## A straggler arrives -/

/-- The generation, the cursor, the seen bitmap and the hold-back are the same. -/
def Kept (assoc assoc' : InAssociation) : Prop :=
  assoc'.flowEpoch = assoc.flowEpoch ∧ assoc'.recvNext = assoc.recvNext ∧
    assoc'.seen = assoc.seen ∧ assoc'.holdback = assoc.holdback

def reaches (cfg : ReceiveConfig) (s : Receiver) (m : FlowPacket) (slot : ℕ) : Bool :=
  s.receivable cfg slot &&
    decide (m.peerSlot < cfg.maxPeers ∧ m.flowId ≠ Flow.invalidFlowId ∧ m.seq ≠ 0)

theorem compareFlowEpoch_self (flowEpoch : UInt8) :
    compareFlowEpoch flowEpoch flowEpoch = .current := by
  simp [compareFlowEpoch]

section Arrival
variable {m : FlowPacket} {slot laneCapacity : ℕ} {acquired : Option InAssociation}
  {recorded : Bool} {e : InDirEntry} {i : ℕ} {mode : FlowMode} {flowEpoch : UInt8} {part : FlowPart}

theorem flowPacket_refused {verdict : FlowAdmit} (haway : verdict = .stale ∨ verdict = .rejected)
    (h : Flow.admitInFlow cfg.limits ⟨s.deliveryEnv cfg laneCapacity m.peerSlot, acquired, recorded⟩
      (s.dirs m.peerSlot) ⟨m.peerSlot, m.addr, m.id⟩ m.flowId m.flowData =
        (s.dirs m.peerSlot, verdict)) :
    (s.flowPacket cfg laneCapacity m slot acquired recorded).dirs m.peerSlot =
      s.dirs m.peerSlot := by
  unfold Receiver.flowPacket
  split_ifs with hfields
  · rfl
  · have hentered : admitIn cfg.limits
        ⟨s.deliveryEnv cfg laneCapacity m.peerSlot, acquired, recorded⟩ (s.dirs m.peerSlot)
        ⟨m.peerSlot, m.addr, m.id⟩ m.flowId m.flowData =
        (s.dirs m.peerSlot, verdict, none) := by
      unfold Flow.admitIn
      rw [h]
      rcases haway with rfl | rfl <;> rfl
    simp only [Receiver.admitPacket, hentered, Receiver.dropSlot, update_self]

theorem deliver_flowEpoch (hinv : s.Inv cfg hand) (laneCapacity slot epoch : ℕ)
    (he : (s.dirs m.peerSlot)[i]? = some e) :
    ∃ e', ((s.deliver cfg laneCapacity m slot i epoch).dirs m.peerSlot)[i]? = some e' ∧
      e'.assoc.flowEpoch = e.assoc.flowEpoch := by
  have hshape : e.assoc.Shaped := hinv.shaped m.peerSlot e (List.mem_of_getElem? he)
  have hdelivers := InAssociation.deliverIn_delivers (s.deliveryEnv cfg laneCapacity m.peerSlot)
    e.assoc hshape m.flowId epoch m.seq slot
  have hlt : i < (s.dirs m.peerSlot).length := (List.getElem?_eq_some_iff.mp he).1
  unfold Receiver.deliver
  rw [he]
  dsimp only
  generalize e.assoc.deliverIn (s.deliveryEnv cfg laneCapacity m.peerSlot) m.flowId epoch
    m.seq slot = r at hdelivers ⊢
  refine ⟨{ e with assoc := r.1 }, ?_, congrArg (fun c => c.2.2.1) hdelivers.core⟩
  by_cases hpins : e.assoc.pins r = true
  · simp only [hpins, if_true, update_self]
    exact List.getElem?_set_self hlt
  · simp only [hpins, Bool.false_eq_true, if_false, Receiver.dropSlot, update_self]
    exact List.getElem?_set_self hlt

/-- An admission that starts a new generation leads to the association in it. -/
theorem admitIn_reopened {limits : Flow.ReceiveLimits} {env : Flow.FlowInEnv} {peer : Flow.PeerRef}
    {flowId : ℕ} {flowData : UInt8}
    (hdecode : decodeFlowData flowData = some (mode, flowEpoch, part))
    (hfind : findFlowSlot dir flowId = some (e, i))
    (hnewer : Flow.admitOrder limits.flowStallTimeout env.delivery.now e.assoc flowEpoch = .newer)
    (hfits : e.bulk = decide (mode = .reliableOrderedBulk)) :
    ∃ e', (admitIn limits env dir peer flowId flowData).1[i]? = some e' ∧
      e'.assoc.flowEpoch = flowEpoch ∧
      ∃ epoch, (admitIn limits env dir peer flowId flowData).2.2 = some (i, epoch) := by
  have hflow : Flow.admitInFlow limits env dir peer flowId flowData =
      (dir.set i (Flow.reopenEntry e (Flow.resetParams peer flowId mode flowEpoch)
        env.delivery.now), .reopened) := by
    unfold Flow.admitInFlow
    rw [hdecode, hfind]
    dsimp only
    rw [hnewer]
    rw [if_neg (not_not.mpr hfits)]
    rfl
  generalize hfresh : Flow.reopenEntry e (Flow.resetParams peer flowId mode flowEpoch)
    env.delivery.now = fresh at hflow
  have hid : fresh.flowId = e.flowId := by
    rw [← hfresh]
    rfl
  have hgeneration : fresh.assoc.flowEpoch = flowEpoch := by
    rw [← hfresh]
    rfl
  have hfound := Flow.findFlowSlot_set_self hfind fresh hid
  have hget := (findFlowSlot_eq_some_iff.mp hfound).1
  unfold Flow.admitIn
  rw [hflow]
  dsimp only
  rw [hfound]
  by_cases hrecorded : env.recorded = true
  · rw [if_pos hrecorded]
    refine ⟨Flow.markEmitting fresh, ?_, hgeneration, _, rfl⟩
    dsimp only [Option.map_some]
    rw [List.getElem?_modify_eq, hget]
    rfl
  · rw [if_neg hrecorded]
    exact ⟨fresh, hget, hgeneration, _, rfl⟩

theorem flowPacket_reopened (hinv : s.Inv cfg {slot}) (hp : m.peerSlot < cfg.maxPeers)
    (hflowId : m.flowId ≠ Flow.invalidFlowId) (hseq : m.seq ≠ 0)
    (hdecode : decodeFlowData m.flowData = some (mode, flowEpoch, part))
    (hfind : findFlowSlot (s.dirs m.peerSlot) m.flowId = some (e, i))
    (hnewer : Flow.admitOrder cfg.limits.flowStallTimeout s.clock e.assoc flowEpoch = .newer)
    (hfits : e.bulk = decide (mode = .reliableOrderedBulk)) (laneCapacity : ℕ)
    (acquired : Option InAssociation) (recorded : Bool) :
    ∃ e', ((s.flowPacket cfg laneCapacity m slot acquired recorded).dirs m.peerSlot)[i]? = some e' ∧
      e'.assoc.flowEpoch = flowEpoch := by
  have hadmitInv := hinv.admitPacket laneCapacity m hp acquired recorded
  obtain ⟨e₁, hget, hgeneration, epoch, hled⟩ : ∃ e₁,
      ((s.admitPacket cfg laneCapacity m acquired recorded).1.dirs m.peerSlot)[i]? = some e₁ ∧
      e₁.assoc.flowEpoch = flowEpoch ∧
      ∃ epoch, (s.admitPacket cfg laneCapacity m acquired recorded).2 = some (i, epoch) := by
    simp only [Receiver.admitPacket, update_self]
    exact admitIn_reopened hdecode hfind hnewer hfits
  unfold Receiver.flowPacket
  rw [if_neg (by tauto)]
  generalize s.admitPacket cfg laneCapacity m acquired recorded = a at hadmitInv hget hled ⊢
  obtain ⟨s', found⟩ := a
  subst hled
  obtain ⟨e₂, hget₂, hsame⟩ := deliver_flowEpoch hadmitInv laneCapacity slot epoch hget
  exact ⟨e₂, hget₂, hsame.trans hgeneration⟩

theorem flowPacket_stale
    (hdecode : decodeFlowData m.flowData = some (mode, flowEpoch, part))
    (hfind : findFlowSlot (s.dirs m.peerSlot) m.flowId = some (e, i))
    (haway : Flow.admitOrder cfg.limits.flowStallTimeout s.clock e.assoc flowEpoch = .stale ∨
      Flow.admitOrder cfg.limits.flowStallTimeout s.clock e.assoc flowEpoch = .newer ∧
        e.bulk ≠ decide (mode = .reliableOrderedBulk)) :
    (s.flowPacket cfg laneCapacity m slot acquired recorded).dirs m.peerSlot =
      s.dirs m.peerSlot := by
  rcases haway with hstale | ⟨hnewer, hmisfit⟩
  · apply flowPacket_refused (Or.inl rfl)
    simp only [Flow.admitInFlow, hdecode, hfind, deliveryEnv, hstale]
  · apply flowPacket_refused (Or.inr rfl)
    simp only [Flow.admitInFlow, hdecode, hfind, deliveryEnv, hnewer, if_pos hmisfit]

theorem step_of_not_reaches {dt : ℕ} (h : s.reaches cfg m slot = false) :
    (step cfg s (dt, .flowPacket m slot acquired recorded)).dirs m.peerSlot =
      s.dirs m.peerSlot := by
  rw [Receiver.step, Receiver.stepWith]
  by_cases hguard : s.receivable cfg slot = true ∧ m.peerSlot < cfg.maxPeers
  · have hfields : m.flowId = Flow.invalidFlowId ∨ m.seq = 0 := by
      by_contra hnone
      rw [not_or] at hnone
      simp [reaches, hguard.1, hguard.2, hnone.1, hnone.2] at h
    rw [if_pos (by exact hguard), Receiver.flowPacket, if_pos hfields]
    rfl
  · rw [if_neg (by exact hguard)]

end Arrival

/-! ## Main theorem -/

/-- A packet that compares as stale reaches an association that has delivered within the
stall timeout, after any run.  It leaves the generation, the cursor, the seen bitmap and the
hold-back as they were exactly if it does not get as far as admission, the flow is ordered,
the progress stamp is itself within the timeout, or the packet's mode does not fit the
association's slot. -/
theorem straggler_leaves_live_flow (cfg : ReceiveConfig) (grants : ℕ → ℕ) (es : List (ℕ × Event))
    (dt : ℕ) (m : FlowPacket) (slot : ℕ) (acquired : Option InAssociation) (recorded : Bool) :
    let s := run (step cfg) (start grants) es
    ∀ e i mode flowEpoch part t, findFlowSlot (s.dirs m.peerSlot) m.flowId = some (e, i) →
      decodeFlowData m.flowData = some (mode, flowEpoch, part) →
      compareFlowEpoch e.assoc.flowEpoch flowEpoch = .stale →
      s.lastDelivery m.peerSlot m.flowId = some t →
      elapsed (s.clock + dt) t ≤ cfg.limits.flowStallTimeout →
      ((∃ e', ((step cfg s (dt, .flowPacket m slot acquired recorded)).dirs m.peerSlot)[i]? =
            some e' ∧ Kept e.assoc e'.assoc) ↔
        s.reaches cfg m slot = false ∨ isOrdered e.assoc.mode = true ∨
          elapsed (s.clock + dt) e.assoc.lastProgressMicros ≤ cfg.limits.flowStallTimeout ∨
          e.bulk ≠ decide (mode = .reliableOrderedBulk)) := by
  intro s e i mode flowEpoch part t hfind hdecode hstale hlast hrecent
  have hinv : s.Inv cfg 0 := Inv.run cfg grants es
  have hstamped : s.Stamped := Stamped.run cfg grants es
  have hget := (findFlowSlot_eq_some_iff.mp hfind).1
  have hkept : Kept e.assoc e.assoc := ⟨rfl, rfl, rfl, rfl⟩
  by_cases hreaches : s.reaches cfg m slot = true
  · have hthere := hreaches
    simp only [reaches, Bool.and_eq_true, decide_eq_true_eq] at hthere
    obtain ⟨hreceivable, hp, hflowId, hseq⟩ := hthere
    obtain ⟨s₁, hs₁⟩ : ∃ s₁, s₁ = { s with clock := s.clock + dt }.lease slot := ⟨_, rfl⟩
    have hstep : step cfg s (dt, .flowPacket m slot acquired recorded) =
        s₁.flowPacket cfg cfg.laneCapacity m slot acquired recorded := by
      rw [Receiver.step, Receiver.stepWith, hs₁]
      exact if_pos ⟨hreceivable, hp⟩
    have hleased : s₁.Inv cfg {slot} := by
      rw [hs₁]
      exact (hinv.tick (s.clock + dt)).lease hreceivable
    have hclock : s₁.clock = s.clock + dt := by
      rw [hs₁]
      rfl
    have hdirs : s₁.dirs = s.dirs := by
      rw [hs₁]
      rfl
    rw [hstep, hreaches]
    rw [← hdirs] at hget hfind
    rw [← hclock] at hrecent ⊢
    by_cases hsilent : cfg.limits.flowStallTimeout <
        elapsed s₁.clock e.assoc.lastProgressMicros
    · have hnewer : Flow.admitOrder cfg.limits.flowStallTimeout s₁.clock e.assoc flowEpoch =
          .newer := if_pos ⟨hstale, hsilent⟩
      -- the stamp of an ordered flow is no older than its last delivery
      have hunordered : isOrdered e.assoc.mode ≠ true := by
        intro hordered
        have hle := hstamped.progress m.peerSlot m.flowId e i t (hdirs ▸ hfind) hordered hlast
        rw [elapsed_eq] at hrecent hsilent
        omega
      by_cases hfits : e.bulk = decide (mode = .reliableOrderedBulk)
      · obtain ⟨e₁, hget₁, hgeneration⟩ := flowPacket_reopened hleased hp hflowId hseq hdecode hfind
          hnewer hfits cfg.laneCapacity acquired recorded
        constructor
        · rintro ⟨e', hget', hsame, -⟩
          rw [hget₁, Option.some.injEq] at hget'
          rw [← hget', hgeneration] at hsame
          rw [hsame, compareFlowEpoch_self] at hstale
          cases hstale
        · rintro (hmissed | hordered | hprogress | hmisfit)
          · cases hmissed
          · exact absurd hordered hunordered
          · exact absurd hprogress (Nat.not_le.mpr hsilent)
          · exact absurd hfits hmisfit
      · refine iff_of_true ⟨e, ?_, hkept⟩ (Or.inr (Or.inr (Or.inr hfits)))
        rw [flowPacket_stale hdecode hfind (Or.inr ⟨hnewer, hfits⟩)]
        exact hget
    · have hold : Flow.admitOrder cfg.limits.flowStallTimeout s₁.clock e.assoc flowEpoch =
          .stale := (if_neg (fun h => hsilent h.2)).trans hstale
      refine iff_of_true ⟨e, ?_, hkept⟩ (Or.inr (Or.inr (Or.inl (Nat.not_lt.mp hsilent))))
      rw [flowPacket_stale hdecode hfind (Or.inl hold)]
      exact hget
  · rw [Bool.not_eq_true] at hreaches
    refine iff_of_true ⟨e, ?_, hkept⟩ (Or.inl hreaches)
    rw [step_of_not_reaches hreaches]
    exact hget

/-- One peer, a stall timeout of 100, and packets of its first flow. -/
def patient : ReceiveConfig := ⟨4, 2, 1, 1, ⟨100, 2⟩⟩

def patientPacket (flowData : UInt8) (seq slot : ℕ) : Event :=
  .flowPacket ⟨0, ⟨[], 0, 0⟩, ⟨[]⟩, 1, flowData, seq⟩ slot (some .raw) false

/-- An ordered flow delivers, and again 100 later: a straggler right after it changes nothing. -/
theorem straggler_leaves_live_flow_ordered :
    let s := run (step patient) (start fun _ => 4)
      [(1, patientPacket 0 1 0), (100, patientPacket 0 2 1)]
    ∃ e e', findFlowSlot (s.dirs 0) 1 = some (e, 0) ∧
      ((step patient s (1, patientPacket 40 1 2)).dirs 0)[0]? = some e' ∧ Kept e.assoc e'.assoc := by
  intro s
  have hfacts : (findFlowSlot (s.dirs 0) 1).any (fun f => f.2 = 0 ∧
      isOrdered f.1.assoc.mode = true ∧ compareFlowEpoch f.1.assoc.flowEpoch 5 = .stale) = true := by
    decide +kernel
  cases hfind : findFlowSlot (s.dirs 0) 1 with
  | none =>
    rw [hfind] at hfacts
    cases hfacts
  | some found =>
    obtain ⟨e, i⟩ := found
    rw [hfind] at hfacts
    obtain ⟨rfl, hordered, hstale⟩ := of_decide_eq_true hfacts
    have hlast : s.lastDelivery 0 1 = some 101 := by decide +kernel
    have hrecent : elapsed (s.clock + 1) 101 ≤ patient.limits.flowStallTimeout := by
      decide +kernel
    obtain ⟨e', hget, hkept⟩ := (straggler_leaves_live_flow patient (fun _ => 4) _ 1
      ⟨0, ⟨[], 0, 0⟩, ⟨[]⟩, 1, 40, 1⟩ 2 (some .raw) false e 0 .reliableOrdered 5 .whole 101 hfind rfl hstale hlast hrecent).mpr (Or.inr (Or.inl hordered))
    exact ⟨e, e', rfl, hget, hkept⟩

/-- The same packets on an unordered flow, where no delivery moves the stamp: the straggler
puts the flow into its own generation 1 after the last delivery. -/
theorem straggler_resets_unordered_flow :
    let s := run (step patient) (start fun _ => 4)
      [(1, patientPacket 1 1 0), (100, patientPacket 1 2 1)]
    (findFlowSlot (s.dirs 0) 1).map (fun f => (f.1.assoc.flowEpoch, f.2)) = some (0, 0) ∧
      (decodeFlowData 41).map (fun d => d.2.1) = some 5 ∧ compareFlowEpoch 0 5 = .stale ∧
      s.lastDelivery 0 1 = some 101 ∧
      elapsed (s.clock + 1) 101 ≤ patient.limits.flowStallTimeout ∧
      ((step patient s (1, patientPacket 41 1 2)).dirs 0)[0]?.map (fun e => e.assoc.flowEpoch) =
        some 5 := by
  decide +kernel

end Receiver

end BcpFlux.Socket
