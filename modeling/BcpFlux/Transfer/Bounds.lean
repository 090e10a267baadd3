import BcpFlux.Transfer.Table

/-! # Transfer slots stay below the capacity of their pool

No matter in which order the table is called, and even after a slot was released twice,
a slot the table knows is an index of its pool.  Whether that is an index of the ring
storage, which has one block for each of `count` slots, depends on how the pool rounds.
-/

namespace BcpFlux.Transfer
open Library Pool Function

namespace Side
variable {ρ : Type}

structure Bounded (s : Side ρ) : Prop where
  pool : s.count ≠ 0 → s.pool.Bounded
  unused : s.count = 0 → s.pool.capacity = 0
  listed : ∀ p e, some e ∈ s.dir p → e.slot < s.pool.capacity
  acquired : ∀ i, s.acquired i ≠ 0 → i < s.pool.capacity

/-- `s'` is bounded and of the size of `s`. -/
structure Keeps (s s' : Side ρ) : Prop where
  bounded : s'.Bounded
  pool_capacity : s'.pool.capacity = s.pool.capacity
  count : s'.count = s.count
  maxPeers : s'.maxPeers = s.maxPeers

variable {s s' s'' : Side ρ} {slot : ℕ}

theorem Bounded.keeps_self (h : s.Bounded) : s.Keeps s := ⟨h, rfl, rfl, rfl⟩

theorem Keeps.trans (h : s.Keeps s') (h' : s'.Keeps s'') : s.Keeps s'' :=
  ⟨h'.bounded, h'.pool_capacity.trans h.pool_capacity, h'.count.trans h.count,
    h'.maxPeers.trans h.maxPeers⟩

theorem bounded_init {count maxPeers : ℕ} {blank : ρ} (hcount : count < 2 ^ 32)
    (h : Side.init count maxPeers blank = some s) : s.Bounded := by
  rw [Side.init, Option.map_eq_some_iff] at h
  obtain ⟨pool, hpool, rfl⟩ := h
  unfold SplitAssocPool.initSub at hpool
  constructor
  · intro hne
    rw [if_pos (Nat.pos_of_ne_zero hne)] at hpool
    exact SlotPool.bounded_init hcount hpool
  · intro hzero
    change count = 0 at hzero
    rw [if_neg (by omega)] at hpool
    cases hpool
    rfl
  · intro p e he
    simp at he
  · intro i hi
    exact absurd rfl hi

theorem init_facts {count maxPeers : ℕ} {blank : ρ} (h : Side.init count maxPeers blank = some s) :
    s.count = count ∧ s.maxPeers = maxPeers ∧
      (s.dir = fun _ => List.replicate maxPerPeer none) ∧
      (count ≠ 0 → SlotPool.init count = some s.pool) := by
  rw [Side.init, Option.map_eq_some_iff] at h
  obtain ⟨pool, hpool, rfl⟩ := h
  refine ⟨rfl, rfl, rfl, ?_⟩
  intro hne
  rwa [SplitAssocPool.initSub, if_pos (Nat.pos_of_ne_zero hne)] at hpool

theorem Bounded.find_lt (h : s.Bounded) {peerSlot transferId : ℕ}
    (hfind : s.find peerSlot transferId = some slot) : slot < s.pool.capacity := by
  unfold Side.find at hfind
  split at hfind
  · cases hfind
  · obtain ⟨e, hmem, -, rfl⟩ := Row.mem_of_find hfind
    exact h.listed peerSlot e hmem

theorem Bounded.store (h : s.Bounded) (r : ρ) : s.Keeps (s.store slot r) :=
  ⟨⟨h.pool, h.unused, h.listed, h.acquired⟩, rfl, rfl, rfl⟩

theorem Bounded.claim (h : s.Bounded) (hcount : s.count ≠ 0) (peerSlot transferId : ℕ) (r : ρ)
    (hint : ℕ) : s.Keeps (s.claim peerSlot transferId r hint).2 := by
  unfold Side.claim
  split
  · exact h.keeps_self
  split
  · exact h.keeps_self
  · exact ⟨⟨h.pool, h.unused, h.listed, h.acquired⟩, rfl, rfl, rfl⟩
  · next i _ slot pool hacq =>
    obtain ⟨hlt, hpool, hcap⟩ := (h.pool hcount).acquire hacq
    refine ⟨⟨fun _ => hpool, fun hzero => absurd hzero hcount, ?_, ?_⟩, hcap, rfl, rfl⟩
    · intro p e he
      show e.slot < pool.capacity
      rw [hcap]
      by_cases hp : p = peerSlot
      · subst hp
        simp only [Side.lease, update_self] at he
        rcases Row.mem_set he with rfl | hold
        · exact hlt
        · exact h.listed p e hold
      · simp only [Side.lease, update_of_ne hp] at he
        exact h.listed p e he
    · intro j hj
      show j < pool.capacity
      rw [hcap]
      by_cases hjs : j = slot
      · rw [hjs]
        exact hlt
      · simp only [Side.lease, update_of_ne hjs] at hj
        exact h.acquired j hj

theorem forget_dir (peerSlot : ℕ) (blank : ρ) {p : ℕ} {e : DirEntry}
    (he : some e ∈ (s.forget peerSlot slot blank).dir p) : some e ∈ s.dir p := by
  unfold forget at he
  dsimp only at he
  split at he
  · by_cases hp : p = peerSlot
    · subst hp
      rw [update_self] at he
      exact (Row.mem_clear.mp he).1
    · rwa [update_of_ne hp] at he
  · exact he

theorem Bounded.close (h : s.Bounded) (hslot : slot < s.pool.capacity) (peerSlot : ℕ) (blank : ρ) :
    s.Keeps (s.close peerSlot slot blank) := by
  have hcount : s.count ≠ 0 := by
    intro hzero
    rw [h.unused hzero] at hslot
    exact Nat.not_lt_zero _ hslot
  unfold Side.close
  cases hrel : s.pool.release slot with
  | none =>
    refine ⟨⟨h.pool, h.unused, ?_, h.acquired⟩, rfl, rfl, rfl⟩
    intro p e he
    exact h.listed p e (forget_dir peerSlot blank he)
  | some pool =>
    obtain ⟨hpool, hcap⟩ := (h.pool hcount).release hslot hrel
    refine ⟨⟨fun _ => hpool, fun hzero => absurd hzero hcount, ?_, ?_⟩, hcap, rfl, rfl⟩
    · intro p e he
      show e.slot < pool.capacity
      rw [hcap]
      exact h.listed p e (forget_dir peerSlot blank he)
    · intro j hj
      show j < pool.capacity
      rw [hcap]
      exact h.acquired j hj

theorem Bounded.foldl_close (peerSlot : ℕ) (blank : ρ) (es : List DirEntry) (h : s.Bounded)
    (hall : ∀ e ∈ es, e.slot < s.pool.capacity) :
    s.Keeps (es.foldl (fun s e => s.close peerSlot e.slot blank) s) := by
  induction es generalizing s with
  | nil => exact h.keeps_self
  | cons e es ih =>
    have hclose := h.close (hall e List.mem_cons_self) peerSlot blank
    rw [List.foldl_cons]
    apply hclose.trans
    apply ih hclose.bounded
    intro e' he'
    rw [hclose.pool_capacity]
    exact hall e' (List.mem_cons_of_mem e he')

theorem Bounded.sweep (h : s.Bounded) (peerSlot : ℕ) (blank : ρ) :
    s.Keeps (s.sweep peerSlot blank) := by
  unfold Side.sweep
  split
  · exact h.keeps_self
  · apply h.foldl_close
    intro e he
    exact h.listed peerSlot e (by simpa using he)

/-! ## Turning a ring -/

def Vacant (s : Side ρ) : Prop := s.dir = fun _ => List.replicate maxPerPeer none

theorem Vacant.find_eq_none (h : s.Vacant) (peerSlot transferId : ℕ) :
    s.find peerSlot transferId = none := by
  unfold Side.find
  split
  · rfl
  · rw [h]
    rfl

theorem Vacant.sweep_eq (h : s.Vacant) (peerSlot : ℕ) (blank : ρ) : s.sweep peerSlot blank = s := by
  unfold Side.sweep
  split
  · rfl
  · rw [h]
    rfl

theorem Vacant.claim_start (h : s.Vacant) {free : ℕ → List ℕ} (hfree : s.pool.Free free)
    {ring first : ℕ} {rest : List ℕ} (hring : ring < s.pool.shardCount)
    (hq : free ring = first :: rest) (peerSlot transferId : ℕ) (r : ρ) :
    ∃ pool, s.pool.acquire ring = .index first pool ∧
      s.claim peerSlot transferId r ring = (.ok, s.lease pool first peerSlot 0 transferId r) := by
  obtain ⟨r', hacq, -⟩ := hfree.acquire_start hring hq
  refine ⟨_, hacq, ?_⟩
  have hindex : (s.dir peerSlot).freeIndex = some 0 := by
    rw [h]
    rfl
  rw [Side.claim, hindex]
  rw [hacq]

/-- A transfer opened and swept away again leaves nothing but the ring one turn further. -/
theorem Vacant.turn (h : s.Vacant) {free : ℕ → List ℕ} (hfree : s.pool.Free free)
    {ring first : ℕ} {rest : List ℕ} (hring : ring < s.pool.shardCount)
    (hq : free ring = first :: rest) (hcount : s.count ≠ 0) {peerSlot : ℕ}
    (hpeer : peerSlot < s.maxPeers) (transferId : ℕ) (r blank : ρ) :
    ∃ pool, (s.claim peerSlot transferId r ring).2.acquired first ≠ 0 ∧
      (((s.claim peerSlot transferId r ring).2).sweep peerSlot blank).Vacant ∧
      (((s.claim peerSlot transferId r ring).2).sweep peerSlot blank).pool = pool ∧
      (((s.claim peerSlot transferId r ring).2).sweep peerSlot blank).count = s.count ∧
      (((s.claim peerSlot transferId r ring).2).sweep peerSlot blank).maxPeers = s.maxPeers ∧
      pool.shardCount = s.pool.shardCount ∧
      pool.Free (update free ring (rest ++ [first])) := by
  obtain ⟨taken, back, hacq, hrel, -, hshards, hback⟩ := hfree.turn hring hq
  obtain ⟨pool, hacq', hclaim⟩ := h.claim_start hfree hring hq peerSlot transferId r
  obtain rfl : taken = pool := by
    rw [hacq] at hacq'
    exact (Acquired.index.inj hacq').2
  have hrow : ((s.lease taken first peerSlot 0 transferId r).dir peerSlot).filterMap id =
      [⟨transferId, first⟩] := by
    rw [Side.lease, h]
    simp [maxPerPeer]
  have hsweep : (s.lease taken first peerSlot 0 transferId r).sweep peerSlot blank =
      ((s.lease taken first peerSlot 0 transferId r).forget peerSlot first blank).giveBack first
        (some back) := by
    have hopen : ¬ ((s.lease taken first peerSlot 0 transferId r).count = 0 ∨
        (s.lease taken first peerSlot 0 transferId r).maxPeers ≤ peerSlot) :=
      not_or.mpr ⟨hcount, Nat.not_le.mpr hpeer⟩
    rw [Side.sweep, if_neg hopen, hrow, List.foldl_cons, List.foldl_nil, Side.close]
    exact congrArg _ hrel
  rw [hclaim]
  refine ⟨back, ?_, ?_, ?_, ?_, ?_, hshards, hback⟩
  · simp [Side.lease]
  · rw [hsweep]
    have hrows : ∀ p, s.dir p = List.replicate maxPerPeer none := fun p => by rw [h]
    funext p
    by_cases hp : p = peerSlot
    · subst hp
      simp [giveBack, forget, Side.lease, hpeer, hrows, Row.clear, maxPerPeer]
    · simp [giveBack, forget, Side.lease, hpeer, hp, hrows]
  · rw [hsweep]
    rfl
  · rw [hsweep]
    rfl
  · rw [hsweep]
    rfl

end Side

namespace Table

structure Bounded (t : Table) : Prop where
  outbound : t.outbound.Bounded
  inbound : t.inbound.Bounded
  queued : ∀ e ∈ t.finished, e.slot <
    if e.incoming then t.inbound.pool.capacity else t.outbound.pool.capacity

/-- Both directions stay bounded and keep their size. -/
structure Keeps (t t' : Table) : Prop where
  bounded : t'.Bounded
  outbound : t.outbound.Keeps t'.outbound
  inbound : t.inbound.Keeps t'.inbound

variable {t t' t'' : Table}

theorem Bounded.keeps_self (h : t.Bounded) : t.Keeps t :=
  ⟨h, h.outbound.keeps_self, h.inbound.keeps_self⟩

theorem Keeps.trans (h : t.Keeps t') (h' : t'.Keeps t'') : t.Keeps t'' :=
  ⟨h'.bounded, h.outbound.trans h'.outbound, h.inbound.trans h'.inbound⟩

theorem Bounded.moves (h : t.Bounded) {outbound : Side OutTransfer} {inbound : Side InTransfer}
    {queue : List Finished} {pushes : List (Bool × ℕ)} {reads : List (Finished × Bool)}
    (hout : t.outbound.Keeps outbound) (hin : t.inbound.Keeps inbound)
    (hqueue : queue ⊆ t.finished) :
    t.Keeps ⟨t.maxTransferBytes, outbound, inbound, queue, pushes, reads⟩ := by
  refine ⟨⟨hout.bounded, hin.bounded, ?_⟩, hout, hin⟩
  intro e he
  rw [hout.pool_capacity, hin.pool_capacity]
  exact h.queued e (hqueue he)

theorem Bounded.push (h : t.Bounded) {slot : ℕ} {d : Bool} (outcome : Error)
    (hslot : slot < if d then t.inbound.pool.capacity else t.outbound.pool.capacity) :
    t.Keeps (t.push slot d outcome) := by
  unfold Table.push
  split
  · refine ⟨⟨h.outbound, h.inbound, ?_⟩, h.outbound.keeps_self, h.inbound.keeps_self⟩
    intro e he
    rcases List.mem_append.mp he with hold | hnew
    · exact h.queued e hold
    · rw [List.mem_singleton.mp hnew]
      exact hslot
  · exact h.keeps_self

theorem Bounded.store_out (h : t.Bounded) (slot : ℕ) (r : OutTransfer) :
    t.Keeps { t with outbound := t.outbound.store slot r } :=
  h.moves (h.outbound.store r) h.inbound.keeps_self (List.Subset.refl _)

theorem Bounded.store_in (h : t.Bounded) (slot : ℕ) (r : InTransfer) :
    t.Keeps { t with inbound := t.inbound.store slot r } :=
  h.moves h.outbound.keeps_self (h.inbound.store r) (List.Subset.refl _)

theorem Bounded.settleSend (h : t.Bounded) {slot : ℕ} (hslot : slot < t.outbound.pool.capacity)
    (r : OutTransfer) (ends : Bool) (outcome : Error) :
    t.Keeps (t.settleSend slot r ends outcome) := by
  have hstored := h.store_out slot r
  unfold Table.settleSend
  split
  · exact hstored.trans (hstored.bounded.push outcome hslot)
  · exact hstored

theorem Bounded.settleData (h : t.Bounded) {slot : ℕ} (hslot : slot < t.inbound.pool.capacity)
    (r : InTransfer × Bool) : t.Keeps (t.settleData slot r) := by
  have hstored := h.store_in slot r.1
  unfold Table.settleData
  split
  · exact hstored.trans (hstored.bounded.push .ok hslot)
  · exact hstored

theorem Bounded.closed_in (h : t.Bounded) {slot : ℕ} (hslot : slot < t.inbound.pool.capacity)
    (peerSlot : ℕ) :
    t.Keeps { t with inbound := t.inbound.close peerSlot slot .blank } :=
  h.moves h.outbound.keeps_self (h.inbound.close hslot peerSlot .blank) (List.Subset.refl _)

theorem Bounded.readEntry (h : t.Bounded) {e : Finished} {rest : List Finished}
    (hqueue : t.finished = e :: rest) : t.Keeps (t.readEntry e rest).2 := by
  have hsub : rest ⊆ t.finished := by
    rw [hqueue]
    exact List.subset_cons_self e rest
  have hslot := h.queued e (by simp [hqueue])
  unfold Table.readEntry
  split
  · exact h.moves h.outbound.keeps_self h.inbound.keeps_self hsub
  · next hd =>
    rw [if_neg hd] at hslot
    have hclose := h.outbound.close hslot (t.outbound.records e.slot).peerSlot OutTransfer.blank
    exact h.moves hclose h.inbound.keeps_self hsub

theorem Bounded.drainFinished (max : ℕ) (h : t.Bounded) : t.Keeps (drainFinished max t).2 := by
  induction max generalizing t with
  | zero => exact h.keeps_self
  | succ max ih =>
    rw [Table.drainFinished]
    split
    · exact h.keeps_self
    · next e rest hqueue =>
      have hread := h.readEntry hqueue
      exact hread.trans (ih hread.bounded)

theorem Bounded.beginSend (h : t.Bounded) (peerSlot : ℕ) (peer : Address) (transferId : ℕ)
    (buffer : Option (ℕ → UInt8)) (length hint : ℕ) :
    t.Keeps (t.beginSend peerSlot peer transferId buffer length hint).2 := by
  rcases t.beginSend_cases peerSlot peer transferId buffer length hint with
    ⟨hsame, -⟩ | ⟨source, -, hcount, -, -, -, -, -, heq⟩
  · rw [hsame]
    exact h.keeps_self
  · rw [heq]
    exact h.moves (h.outbound.claim hcount peerSlot transferId _ hint) h.inbound.keeps_self
      (List.Subset.refl _)

theorem Bounded.onAnnounce (h : t.Bounded) (peerSlot : ℕ) (peer : Address)
    (transferId length stride hint : ℕ) :
    t.Keeps (t.onAnnounce peerSlot peer transferId length stride hint).2.2 := by
  rcases t.onAnnounce_cases peerSlot peer transferId length stride hint with
    hsame | ⟨hcount, -, -, -, -, -, heq⟩
  · rw [hsame]
    exact h.keeps_self
  · rw [heq]
    exact h.moves h.outbound.keeps_self (h.inbound.claim hcount peerSlot transferId _ hint)
      (List.Subset.refl _)

theorem Bounded.call (h : t.Bounded) (c : Call) : t.Keeps (t.call c) := by
  cases c with
  | beginSend peerSlot peer transferId buffer length hint =>
    exact h.beginSend peerSlot peer transferId buffer length hint
  | onAnnounce peerSlot peer transferId length stride hint =>
    exact h.onAnnounce peerSlot peer transferId length stride hint
  | onData peerSlot transferId seq payload =>
    rw [Table.call, Table.onData]
    split
    · exact h.keeps_self
    · next slot hfind => exact h.settleData (h.inbound.find_lt hfind) _
  | allow peerSlot transferId buffer =>
    rw [Table.call, Table.allow]
    split
    · exact h.keeps_self
    split
    · exact h.keeps_self
    · exact h.store_in _ _
  | reject peerSlot transferId =>
    rw [Table.call, Table.reject]
    split
    · exact h.keeps_self
    · next slot hfind => exact h.closed_in (h.inbound.find_lt hfind) peerSlot
  | complete peerSlot transferId =>
    rw [Table.call, Table.complete]
    split
    · exact h.keeps_self
    · next slot hfind =>
      split
      · exact h.closed_in (h.inbound.find_lt hfind) peerSlot
      · exact h.keeps_self
  | answer peerSlot transferId =>
    rw [Table.call, Table.answer]
    split
    · exact h.keeps_self
    · exact h.store_in _ _
  | onAck peerSlot transferId recvNext bitmap now =>
    rw [Table.call, Table.onAck]
    split
    · exact h.keeps_self
    · next slot hfind => exact h.settleSend (h.outbound.find_lt hfind) _ _ _
  | onRefused peerSlot transferId =>
    rw [Table.call, Table.onRefused]
    split
    · exact h.keeps_self
    · next slot hfind => exact h.settleSend (h.outbound.find_lt hfind) _ _ _
  | pass peerSlot transferId peer queued times now =>
    rw [Table.call, Table.pass]
    split
    · exact h.keeps_self
    · exact h.store_out _ _
  | sweepPeer peerSlot =>
    exact h.moves (h.outbound.sweep peerSlot .blank) (h.inbound.sweep peerSlot .blank)
      (List.Subset.refl _)
  | drainFinished max => exact h.drainFinished max

end Table

end BcpFlux.Transfer
