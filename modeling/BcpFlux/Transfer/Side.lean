import BcpFlux.Pool.SplitPool
import BcpFlux.Transfer.Outgoing

/-! # One direction of the transfer table

The slot pool, the per-peer directory and the records of one direction.  The two
directions of `TransferTable` differ in their record type only.

Three fields are bookkeeping of the model: which lease each slot is in, and how often it
was acquired and released.
-/

namespace BcpFlux.Transfer
open Library Pool Function

def maxPerPeer : ℕ := 4

structure DirEntry where
  transferId : ℕ
  slot : ℕ
deriving DecidableEq, Repr

/-- A directory row; `none` is an entry with slot `INVALID`. -/
abbrev Row := List (Option DirEntry)

namespace Row

/-- The scan of `FindOut` and `FindIn`. -/
def find (row : Row) (transferId : ℕ) : Option ℕ :=
  row.findSome? fun entry => entry.bind fun e => if e.transferId = transferId then some e.slot else none

def freeIndex (row : Row) : Option ℕ := row.findIdx? Option.isNone

def clear (row : Row) (slot : ℕ) : Row :=
  row.map fun entry => entry.filter fun e => e.slot ≠ slot

end Row

structure Side (ρ : Type) where
  count : ℕ
  maxPeers : ℕ
  pool : SlotPool
  dir : ℕ → Row
  records : ℕ → ρ
  /-- The lease a slot is in, or was in last. -/
  serial : ℕ → ℕ
  next : ℕ
  acquired : ℕ → ℕ
  released : ℕ → ℕ
  /-- A call into the pool never returned. -/
  hung : Bool

namespace Side
variable {ρ : Type}

/-- A direction of count zero has no pool and no directory. -/
def init (count maxPeers : ℕ) (blank : ρ) : Option (Side ρ) :=
  (SplitAssocPool.initSub count).map fun pool =>
    { count := count
      maxPeers := maxPeers
      pool := pool
      dir := fun _ => List.replicate maxPerPeer none
      records := fun _ => blank
      serial := fun _ => 0
      next := 0
      acquired := fun _ => 0
      released := fun _ => 0
      hung := false }

def find (s : Side ρ) (peerSlot transferId : ℕ) : Option ℕ :=
  if s.count = 0 ∨ s.maxPeers ≤ peerSlot then none else (s.dir peerSlot).find transferId

/-- A slot leased for a new record, entered in the row at `i`. -/
def lease (s : Side ρ) (pool : SlotPool) (slot peerSlot i transferId : ℕ) (r : ρ) : Side ρ :=
  { s with
    pool := pool
    dir := update s.dir peerSlot ((s.dir peerSlot).set i (some ⟨transferId, slot⟩))
    records := update s.records slot r
    serial := update s.serial slot s.next
    next := s.next + 1
    acquired := update s.acquired slot (s.acquired slot + 1) }

/-- The tail of `BeginSend` and `OnAnnounce`: a row, a slot, the record, the directory. -/
def claim (s : Side ρ) (peerSlot transferId : ℕ) (r : ρ) (hint : ℕ) : Error × Side ρ :=
  match (s.dir peerSlot).freeIndex with
  | none => (.limitReached, s)
  | some i =>
    match s.pool.acquire hint with
    | .invalid => (.poolExhausted, s)
    | .spins => (.ok, { s with hung := true })
    | .index slot pool => (.ok, s.lease pool slot peerSlot i transferId r)

def store (s : Side ρ) (slot : ℕ) (r : ρ) : Side ρ :=
  { s with records := update s.records slot r }

/-- The record is reset and the row forgets the slot. -/
def forget (s : Side ρ) (peerSlot slot : ℕ) (blank : ρ) : Side ρ :=
  { s with
    dir := if peerSlot < s.maxPeers then
      update s.dir peerSlot ((s.dir peerSlot).clear slot) else s.dir
    records := update s.records slot blank }

/-- The slot is back in the pool, once the release returned. -/
def giveBack (s : Side ρ) (slot : ℕ) : Option SlotPool → Side ρ
  | none => { s with hung := true }
  | some pool =>
    { s with
      pool := pool
      released := update s.released slot (s.released slot + 1) }

/-- A transfer is forgotten and its slot goes back to the pool. -/
def close (s : Side ρ) (peerSlot slot : ℕ) (blank : ρ) : Side ρ :=
  (s.forget peerSlot slot blank).giveBack slot (s.pool.release slot)

/-- One direction of `SweepPeer`. -/
def sweep (s : Side ρ) (peerSlot : ℕ) (blank : ρ) : Side ρ :=
  if s.count = 0 ∨ s.maxPeers ≤ peerSlot then s
  else ((s.dir peerSlot).filterMap id).foldl (fun s e => s.close peerSlot e.slot blank) s

/-! ## Leases -/

def Leased (s : Side ρ) (slot : ℕ) : Prop := s.acquired slot = s.released slot + 1

/-- Slots are leased one at a time, the directory lists leased slots under the peer their
record names, and no slot is listed twice. -/
structure Sound (peerOf : ρ → ℕ) (s : Side ρ) : Prop where
  running : s.hung = false
  tracks : s.count ≠ 0 → s.pool.Tracks {i | s.Leased i}
  capacity : s.count ≠ 0 → s.pool.capacity = s.count
  unused : s.count = 0 → ∀ i, ¬ s.Leased i
  counts : ∀ i, s.released i ≤ s.acquired i ∧ s.acquired i ≤ s.released i + 1
  within : ∀ i, s.Leased i → peerOf (s.records i) < s.maxPeers
  listed : ∀ p e, some e ∈ s.dir p → s.Leased e.slot ∧ peerOf (s.records e.slot) = p
  single : ∀ p, (((s.dir p).filterMap id).map DirEntry.slot).Nodup
  serial_lt : ∀ i, s.Leased i → s.serial i < s.next
  serial_inj : ∀ i j, s.Leased i → s.Leased j → s.serial i = s.serial j → i = j

section Rows
variable {row : Row} {transferId slot i : ℕ}

theorem Row.mem_of_find (h : row.find transferId = some slot) :
    ∃ e, some e ∈ row ∧ e.transferId = transferId ∧ e.slot = slot := by
  obtain ⟨entry, hmem, hentry⟩ := List.exists_of_findSome?_eq_some h
  cases entry with
  | none => cases hentry
  | some e =>
    simp only [Option.bind_some] at hentry
    split at hentry
    · next hid =>
      cases hentry
      exact ⟨e, hmem, hid, rfl⟩
    · cases hentry

theorem Row.mem_clear {e : DirEntry} : some e ∈ row.clear slot ↔ some e ∈ row ∧ e.slot ≠ slot := by
  simp only [Row.clear, List.mem_map, Option.filter_eq_some_iff]
  constructor
  · rintro ⟨entry, hmem, rfl, hne⟩
    exact ⟨hmem, by simpa using hne⟩
  · rintro ⟨hmem, hne⟩
    exact ⟨some e, hmem, rfl, by simpa using hne⟩

theorem Row.freeIndex_spec (h : row.freeIndex = some i) : row[i]? = some none := by
  rw [Row.freeIndex, List.findIdx?_eq_some_iff_getElem] at h
  obtain ⟨hlt, hnone, -⟩ := h
  rw [List.getElem?_eq_getElem hlt]
  simpa using hnone

theorem Row.mem_set {e e' : DirEntry} (h : some e' ∈ row.set i (some e)) : e' = e ∨ some e' ∈ row := by
  rcases List.mem_or_eq_of_mem_set h with hmem | heq
  · exact .inr hmem
  · exact .inl (Option.some.inj heq)

theorem Row.entries_set {e : DirEntry} (h : row[i]? = some none) :
    List.Perm ((row.set i (some e)).filterMap id) (e :: row.filterMap id) := by
  induction row generalizing i with
  | nil => simp at h
  | cons entry row ih =>
    cases i with
    | zero =>
      obtain rfl : entry = none := by simpa using h
      simp
    | succ i =>
      have hrest := ih (i := i) (by simpa using h)
      cases entry with
      | none => simpa using hrest
      | some e' =>
        rw [List.set_cons_succ]
        exact (List.Perm.cons e' hrest).trans (List.Perm.swap e e' _)

theorem Row.entries_clear : (row.clear slot).filterMap id =
    (row.filterMap id).filter fun e => e.slot ≠ slot := by
  induction row with
  | nil => rfl
  | cons entry row ih =>
    cases entry with
    | none => simpa [Row.clear] using ih
    | some e =>
      by_cases hslot : e.slot = slot
      · simpa [Row.clear, hslot, Option.filter] using ih
      · simpa [Row.clear, hslot, Option.filter] using ih

end Rows

section Operations
variable {peerOf : ρ → ℕ} {s : Side ρ} {slot peerSlot transferId i : ℕ} {r : ρ} {pool : SlotPool}

theorem leased_lease {j : ℕ} (hfree : ¬ s.Leased slot)
    (hcounts : s.released slot ≤ s.acquired slot ∧ s.acquired slot ≤ s.released slot + 1) :
    (s.lease pool slot peerSlot i transferId r).Leased j ↔ j = slot ∨ s.Leased j := by
  unfold Leased at hfree ⊢
  by_cases hj : j = slot
  · subst hj
    simp only [lease, update_self, true_or, iff_true]
    omega
  · simp [lease, hj]

theorem Sound.lease (h : s.Sound peerOf) (hpeer : peerOf r = peerSlot) (hfree : ¬ s.Leased slot)
    (hrow : (s.dir peerSlot)[i]? = some none) (hcap : pool.capacity = s.pool.capacity)
    (htracks : pool.Tracks (insert slot {i | s.Leased i})) (hcount : s.count ≠ 0)
    (hwithin : peerSlot < s.maxPeers) : (s.lease pool slot peerSlot i transferId r).Sound peerOf := by
  have hleased : ∀ j, (s.lease pool slot peerSlot i transferId r).Leased j ↔ j = slot ∨ s.Leased j :=
    fun j => leased_lease hfree (h.counts slot)
  -- a listed slot is leased, so the new slot is in no row yet
  have hnew : ∀ p e, some e ∈ s.dir p → e.slot ≠ slot := by
    rintro p e he rfl
    exact hfree (h.listed p e he).1
  constructor
  · exact h.running
  · intro _
    have hset : {j | (s.lease pool slot peerSlot i transferId r).Leased j} =
        insert slot {j | s.Leased j} := by
      ext j
      exact hleased j
    rw [hset]
    exact htracks
  · intro _
    exact hcap.trans (h.capacity hcount)
  · intro hzero
    exact absurd hzero hcount
  · intro j
    have hj := h.counts j
    have hnot : ¬ s.acquired slot = s.released slot + 1 := hfree
    by_cases hjs : j = slot
    · subst hjs
      simp only [Side.lease, update_self]
      omega
    · simpa [Side.lease, hjs] using hj
  · intro j hj
    rcases (hleased j).mp hj with rfl | hold
    · simpa [Side.lease, hpeer] using hwithin
    · have hne : j ≠ slot := by
        rintro rfl
        exact hfree hold
      simpa [Side.lease, hne] using h.within j hold
  · intro p e he
    rw [hleased]
    by_cases hp : p = peerSlot
    · subst hp
      simp only [Side.lease, update_self] at he
      rcases Row.mem_set he with rfl | hold
      · exact ⟨.inl rfl, by simpa [Side.lease] using hpeer⟩
      · obtain ⟨hl, hpe⟩ := h.listed p e hold
        refine ⟨.inr hl, ?_⟩
        simpa [Side.lease, hnew p e hold] using hpe
    · simp only [Side.lease, update_of_ne hp] at he
      obtain ⟨hl, hpe⟩ := h.listed p e he
      refine ⟨.inr hl, ?_⟩
      simpa [Side.lease, hnew p e he] using hpe
  · intro p
    by_cases hp : p = peerSlot
    · subst hp
      simp only [Side.lease, update_self]
      rw [((Row.entries_set hrow).map DirEntry.slot).nodup_iff, List.map_cons, List.nodup_cons]
      refine ⟨?_, h.single p⟩
      intro hmem
      obtain ⟨e, he, heq⟩ := List.mem_map.mp hmem
      exact hnew p e (by simpa using he) heq
    · simpa [Side.lease, hp] using h.single p
  · intro j hj
    rcases (hleased j).mp hj with rfl | hold
    · simp [Side.lease]
    · have hlt := h.serial_lt j hold
      have hne : j ≠ slot := by
        rintro rfl
        exact hfree hold
      simp only [Side.lease, update_of_ne hne]
      omega
  · intro j k hj hk heq
    rcases (hleased j).mp hj with rfl | hoj <;> rcases (hleased k).mp hk with rfl | hok
    · rfl
    · have hlt := h.serial_lt k hok
      have hne : k ≠ j := by
        rintro rfl
        exact hfree hok
      simp only [Side.lease, update_self, update_of_ne hne] at heq
      omega
    · have hlt := h.serial_lt j hoj
      have hne : j ≠ k := by
        rintro rfl
        exact hfree hoj
      simp only [Side.lease, update_self, update_of_ne hne] at heq
      omega
    · have hnj : j ≠ slot := by
        rintro rfl
        exact hfree hoj
      have hnk : k ≠ slot := by
        rintro rfl
        exact hfree hok
      simp only [Side.lease, update_of_ne hnj, update_of_ne hnk] at heq
      exact h.serial_inj j k hoj hok heq

theorem Sound.claim_cases (h : s.Sound peerOf) (hcount : s.count ≠ 0) (peerSlot transferId : ℕ)
    (r : ρ) (hint : ℕ) (hpeer : peerOf r = peerSlot) (hwithin : peerSlot < s.maxPeers) :
    ((s.claim peerSlot transferId r hint).2 = s ∧ (s.claim peerSlot transferId r hint).1 ≠ .ok) ∨
      ∃ slot i pool, s.claim peerSlot transferId r hint =
          (.ok, s.lease pool slot peerSlot i transferId r) ∧
        ¬ s.Leased slot ∧ slot < s.count ∧ (s.dir peerSlot)[i]? = some none ∧
        (s.lease pool slot peerSlot i transferId r).Sound peerOf := by
  unfold claim
  split
  · exact .inl ⟨rfl, Error.noConfusion⟩
  · next i hrow =>
    rcases (h.tracks hcount).acquire_cases hint with ⟨hinv, -⟩ | ⟨slot, pool, hidx, hcap, hlt, hnew, htracks⟩
    · rw [hinv]
      exact .inl ⟨rfl, Error.noConfusion⟩
    · rw [hidx]
      refine .inr ⟨slot, i, pool, rfl, hnew, ?_, Row.freeIndex_spec hrow, ?_⟩
      · rw [← h.capacity hcount]
        exact hlt
      · exact h.lease hpeer hnew (Row.freeIndex_spec hrow) hcap htracks hcount hwithin

theorem Sound.store (h : s.Sound peerOf) (hpeer : peerOf r = peerOf (s.records slot)) :
    (s.store slot r).Sound peerOf where
  __ := h
  within i hi := by
    by_cases hs : i = slot
    · subst hs
      simpa [Side.store, hpeer] using h.within i hi
    · simpa [Side.store, hs] using h.within i hi
  listed p e he := by
    obtain ⟨hl, hpe⟩ := h.listed p e he
    refine ⟨hl, ?_⟩
    by_cases hs : e.slot = slot
    · subst hs
      simpa [Side.store] using hpeer.trans hpe
    · simpa [Side.store, hs] using hpe

/-! A leased slot goes back: its row forgets it and nothing else changes hands. -/

theorem Sound.close_eq (h : s.Sound peerOf) (hleased : s.Leased slot) (peerSlot : ℕ) (blank : ρ) :
    ∃ pool, s.close peerSlot slot blank = (s.forget peerSlot slot blank).giveBack slot (some pool) ∧
      pool.capacity = s.pool.capacity ∧ pool.Tracks ({i | s.Leased i} \ {slot}) := by
  have hcount : s.count ≠ 0 := fun hzero => h.unused hzero slot hleased
  have hmem : slot ∈ {i | s.Leased i} := by
    rw [Set.mem_ofPred_eq]
    exact hleased
  obtain ⟨pool, hrel, hcap, htracks⟩ := (h.tracks hcount).release hmem
  refine ⟨pool, ?_, hcap, htracks⟩
  rw [Side.close, hrel]

theorem Sound.leased_close {j : ℕ} (h : s.Sound peerOf) (hleased : s.Leased slot) (peerSlot : ℕ)
    (blank : ρ) : (s.close peerSlot slot blank).Leased j ↔ s.Leased j ∧ j ≠ slot := by
  obtain ⟨pool, heq, -⟩ := h.close_eq hleased peerSlot blank
  rw [heq]
  unfold Leased at hleased ⊢
  by_cases hj : j = slot
  · subst hj
    simp only [giveBack, forget, update_self, ne_eq, not_true_eq_false, and_false,
      iff_false]
    omega
  · simp [giveBack, forget, hj]

theorem Sound.mem_dir_close {p : ℕ} {e : DirEntry} (h : s.Sound peerOf) (hleased : s.Leased slot)
    (blank : ρ) : some e ∈ (s.close (peerOf (s.records slot)) slot blank).dir p ↔
      some e ∈ s.dir p ∧ e.slot ≠ slot := by
  obtain ⟨pool, heq, -⟩ := h.close_eq hleased (peerOf (s.records slot)) blank
  rw [heq]
  simp only [giveBack, forget, if_pos (h.within slot hleased)]
  by_cases hp : p = peerOf (s.records slot)
  · subst hp
    rw [update_self]
    exact Row.mem_clear
  · rw [update_of_ne hp]
    refine (and_iff_left_of_imp ?_).symm
    rintro he rfl
    exact hp (h.listed p e he).2.symm

/-- Slots only went back from `s` to `s'`: what is still leased is what it was. -/
structure Narrows (s s' : Side ρ) : Prop where
  count : s'.count = s.count
  maxPeers : s'.maxPeers = s.maxPeers
  next : s'.next = s.next
  kept : ∀ j, s'.Leased j → s.Leased j ∧ s'.records j = s.records j ∧ s'.serial j = s.serial j

theorem Narrows.refl (s : Side ρ) : s.Narrows s := ⟨rfl, rfl, rfl, fun _ hj => ⟨hj, rfl, rfl⟩⟩

theorem Narrows.trans {s' s'' : Side ρ} (h : s.Narrows s') (h' : s'.Narrows s'') :
    s.Narrows s'' where
  count := h'.count.trans h.count
  maxPeers := h'.maxPeers.trans h.maxPeers
  next := h'.next.trans h.next
  kept j hj := by
    obtain ⟨hj', hr', hs'⟩ := h'.kept j hj
    obtain ⟨hl, hr, hs⟩ := h.kept j hj'
    exact ⟨hl, hr'.trans hr, hs'.trans hs⟩

theorem Sound.narrows_close (h : s.Sound peerOf) (hleased : s.Leased slot) (peerSlot : ℕ) (blank : ρ) :
    s.Narrows (s.close peerSlot slot blank) := by
  have hkept := fun j => (h.leased_close (j := j) hleased peerSlot blank).mp
  obtain ⟨pool, heq, -⟩ := h.close_eq hleased peerSlot blank
  rw [heq] at hkept ⊢
  refine ⟨rfl, rfl, rfl, fun j hj => ⟨(hkept j hj).1, ?_, rfl⟩⟩
  simp [giveBack, forget, (hkept j hj).2]

theorem Sound.close (h : s.Sound peerOf) (hleased : s.Leased slot) (blank : ρ) :
    (s.close (peerOf (s.records slot)) slot blank).Sound peerOf := by
  have hcount : s.count ≠ 0 := fun hzero => h.unused hzero slot hleased
  have hiff := fun j => h.leased_close (j := j) hleased (peerOf (s.records slot)) blank
  have hdir := fun p e => h.mem_dir_close (p := p) (e := e) hleased blank
  have hnarrow := h.narrows_close hleased (peerOf (s.records slot)) blank
  have hwithin := h.within slot hleased
  obtain ⟨pool, heq, hcap, htracks⟩ := h.close_eq hleased (peerOf (s.records slot)) blank
  rw [heq] at hiff hdir hnarrow ⊢
  constructor
  · exact h.running
  · intro _
    have hset : {j | ((s.forget (peerOf (s.records slot)) slot blank).giveBack slot
        (some pool)).Leased j} = {j | s.Leased j} \ {slot} := by
      ext j
      exact hiff j
    rw [hset]
    exact htracks
  · intro _
    exact hcap.trans (h.capacity hcount)
  · intro hzero
    exact absurd hzero hcount
  · intro j
    have hj := h.counts j
    have hs : s.acquired slot = s.released slot + 1 := hleased
    by_cases hjs : j = slot
    · subst hjs
      simp only [giveBack, forget, update_self]
      omega
    · simpa [giveBack, forget, hjs] using hj
  · intro j hj
    obtain ⟨hl, hr, -⟩ := hnarrow.kept j hj
    rw [hr]
    exact h.within j hl
  · intro p e he
    obtain ⟨hold, hne⟩ := (hdir p e).mp he
    obtain ⟨hl, hp⟩ := h.listed p e hold
    have hl' := (hiff e.slot).mpr ⟨hl, hne⟩
    refine ⟨hl', ?_⟩
    rw [(hnarrow.kept _ hl').2.1]
    exact hp
  · intro p
    simp only [giveBack, forget, if_pos hwithin]
    by_cases hp : p = peerOf (s.records slot)
    · subst hp
      rw [update_self, Row.entries_clear]
      exact (h.single _).sublist (List.filter_sublist.map _)
    · rw [update_of_ne hp]
      exact h.single p
  · intro j hj
    exact h.serial_lt j ((hiff j).mp hj).1
  · intro j k hj hk heq'
    exact h.serial_inj j k ((hiff j).mp hj).1 ((hiff k).mp hk).1 heq'

theorem Sound.foldl_close {p : ℕ} (blank : ρ) (es : List DirEntry) (h : s.Sound peerOf)
    (hin : ∀ e ∈ es, some e ∈ s.dir p) (hnodup : (es.map DirEntry.slot).Nodup) :
    (es.foldl (fun s e => s.close p e.slot blank) s).Sound peerOf ∧
      s.Narrows (es.foldl (fun s e => s.close p e.slot blank) s) ∧
      ∀ j, s.Leased j → j ∉ es.map DirEntry.slot →
        (es.foldl (fun s e => s.close p e.slot blank) s).Leased j := by
  induction es generalizing s with
  | nil => exact ⟨h, .refl s, fun _ hj _ => hj⟩
  | cons e es ih =>
    obtain ⟨hl, hp⟩ := h.listed p e (hin e List.mem_cons_self)
    obtain ⟨hnot, hrest⟩ := List.nodup_cons.mp hnodup
    subst hp
    obtain ⟨hsound, hmore, hkeep⟩ := ih (h.close hl blank)
      (fun e' he' => (h.mem_dir_close hl blank).mpr
        ⟨hin e' (List.mem_cons_of_mem e he'),
          fun heq => hnot (heq ▸ List.mem_map_of_mem he')⟩) hrest
    refine ⟨hsound, (h.narrows_close hl _ blank).trans hmore, ?_⟩
    intro j hj hother
    rw [List.map_cons, List.mem_cons, not_or] at hother
    exact hkeep j ((h.leased_close hl _ blank).mpr ⟨hj, hother.1⟩) hother.2

theorem Sound.sweep (h : s.Sound peerOf) (peerSlot : ℕ) (blank : ρ) :
    (s.sweep peerSlot blank).Sound peerOf ∧ s.Narrows (s.sweep peerSlot blank) ∧
      ∀ j, s.Leased j → peerOf (s.records j) ≠ peerSlot → (s.sweep peerSlot blank).Leased j := by
  unfold Side.sweep
  split
  · exact ⟨h, .refl s, fun _ hj _ => hj⟩
  · have hin : ∀ e ∈ (s.dir peerSlot).filterMap id, some e ∈ s.dir peerSlot := by simp
    obtain ⟨hsound, hnarrow, hkeep⟩ := h.foldl_close blank _ hin (h.single peerSlot)
    refine ⟨hsound, hnarrow, ?_⟩
    intro j hj hpeer
    apply hkeep j hj
    intro hmem
    obtain ⟨e, he, rfl⟩ := List.mem_map.mp hmem
    exact hpeer (h.listed peerSlot e (hin e he)).2

theorem Sound.lt_count (h : s.Sound peerOf) (hleased : s.Leased slot) : slot < s.count := by
  have hcount : s.count ≠ 0 := fun hzero => h.unused hzero slot hleased
  rw [← h.capacity hcount]
  apply (h.tracks hcount).lt_capacity
  rw [Set.mem_ofPred_eq]
  exact hleased

theorem Sound.leased_of_find (h : s.Sound peerOf) (hfind : s.find peerSlot transferId = some slot) :
    s.Leased slot ∧ peerOf (s.records slot) = peerSlot ∧ peerSlot < s.maxPeers := by
  unfold Side.find at hfind
  split at hfind
  · cases hfind
  · next hok =>
    obtain ⟨e, hmem, -, rfl⟩ := Row.mem_of_find hfind
    exact ⟨(h.listed peerSlot e hmem).1, (h.listed peerSlot e hmem).2, by omega⟩

section
variable {count maxPeers : ℕ} {blank : ρ}

theorem count_init (h : Side.init count maxPeers blank = some s) :
    s.count = count := by
  rw [Side.init, Option.map_eq_some_iff] at h
  obtain ⟨pool, -, rfl⟩ := h
  rfl

theorem not_leased_init
    (h : Side.init count maxPeers blank = some s) (i : ℕ) : ¬ s.Leased i := by
  rw [Side.init, Option.map_eq_some_iff] at h
  obtain ⟨pool, -, rfl⟩ := h
  exact Nat.zero_ne_one

theorem sound_init (h : Side.init count maxPeers blank = some s)
    (hexact : count = 0 ∨ IsPow2 count) (hlt : count < 2 ^ 32) : s.Sound peerOf := by
  rw [Side.init, Option.map_eq_some_iff] at h
  obtain ⟨pool, hpool, rfl⟩ := h
  have hnone : ¬ (0 : ℕ) = 0 + 1 := Nat.zero_ne_one
  have hrow : ∀ e : DirEntry, some e ∉ List.replicate maxPerPeer none := by simp
  constructor
  · rfl
  · intro hcount
    rw [SplitAssocPool.initSub, if_pos (Nat.pos_of_ne_zero hcount)] at hpool
    have hempty : {i : ℕ | (0 : ℕ) = 0 + 1} = ∅ := by
      ext i
      simp
    exact hempty ▸ SlotPool.tracks_init hlt hpool
  · intro hcount
    have hpow := hexact.resolve_left hcount
    rw [SplitAssocPool.initSub, if_pos (Nat.pos_of_ne_zero hcount)] at hpool
    rw [(SlotPool.init_spec hlt hpool).1,
      nextPowerOfTwo_of_isPow2 hpow (SplitUse.le_of_isPow2 hpow hlt)]
  · exact fun _ _ => hnone
  · exact fun _ => ⟨le_rfl, Nat.le_succ 0⟩
  · exact fun _ hi => absurd hi hnone
  · exact fun _ e he => absurd he (hrow e)
  · intro p
    simp
  · exact fun _ hi => absurd hi hnone
  · exact fun _ _ hi => absurd hi hnone

end

/-- From `s` to `s'` no holder got done: a slot kept its holder, or is lent afresh to one
that is not done. -/
structure Moves (done : ρ → Bool) (s s' : Side ρ) : Prop where
  count : s'.count = s.count
  next_le : s.next ≤ s'.next
  held : ∀ i, s'.Leased i →
    (s.Leased i ∧ s'.serial i = s.serial i ∧ done (s'.records i) = done (s.records i)) ∨
      (s.next ≤ s'.serial i ∧ done (s'.records i) = false)

theorem Moves.refl (done : ρ → Bool) (s : Side ρ) : s.Moves done s :=
  ⟨rfl, le_rfl, fun _ hi => .inl ⟨hi, rfl, rfl⟩⟩

theorem Narrows.moves {s' : Side ρ} (h : s.Narrows s') (done : ρ → Bool) : s.Moves done s' where
  count := h.count
  next_le := h.next.ge
  held i hi := by
    obtain ⟨hl, hr, hs⟩ := h.kept i hi
    exact .inl ⟨hl, hs, by rw [hr]⟩

theorem moves_store {done : ρ → Bool} (h : done r = done (s.records slot)) :
    s.Moves done (s.store slot r) where
  count := rfl
  next_le := le_rfl
  held j hj := by
    refine .inl ⟨hj, rfl, ?_⟩
    by_cases hs : j = slot
    · subst hs
      simpa [Side.store] using h
    · simp [Side.store, hs]

theorem Sound.moves_lease {done : ρ → Bool} (h : s.Sound peerOf) (hfree : ¬ s.Leased slot)
    (hopen : done r = false) : s.Moves done (s.lease pool slot peerSlot i transferId r) where
  count := rfl
  next_le := Nat.le_succ _
  held j hj := by
    rcases (leased_lease hfree (h.counts slot)).mp hj with rfl | hold
    · exact .inr ⟨by simp [Side.lease], by simpa [Side.lease] using hopen⟩
    · have hne : j ≠ slot := by
        rintro rfl
        exact hfree hold
      exact .inl ⟨hold, by simp [Side.lease, hne], by simp [Side.lease, hne]⟩

theorem Sound.claim {done : ρ → Bool} (h : s.Sound peerOf) (hcount : s.count ≠ 0)
    (peerSlot transferId : ℕ) (r : ρ) (hint : ℕ) (hpeer : peerOf r = peerSlot)
    (hwithin : peerSlot < s.maxPeers) (hopen : done r = false) :
    (s.claim peerSlot transferId r hint).2.Sound peerOf ∧
      s.Moves done (s.claim peerSlot transferId r hint).2 ∧
      ∀ j, s.Leased j → (s.claim peerSlot transferId r hint).2.Leased j ∧
        (s.claim peerSlot transferId r hint).2.serial j = s.serial j := by
  rcases h.claim_cases hcount peerSlot transferId r hint hpeer hwithin with
    ⟨hsame, -⟩ | ⟨slot, i, pool, hclaim, hfree, -, -, hsound⟩
  · rw [hsame]
    exact ⟨h, .refl done s, fun _ hj => ⟨hj, rfl⟩⟩
  · rw [hclaim]
    refine ⟨hsound, h.moves_lease hfree hopen, ?_⟩
    intro j hj
    have hne : j ≠ slot := by
      rintro rfl
      exact hfree hj
    exact ⟨(leased_lease hfree (h.counts slot)).mpr (.inr hj), by simp [Side.lease, hne]⟩

end Operations

end Side

end BcpFlux.Transfer
