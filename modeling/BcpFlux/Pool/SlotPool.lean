import BcpFlux.Basic
import BcpFlux.Library.TicketRing
import Mathlib.Data.Nat.Size

/-! # The sharded slot pool

`SlotPool` hands out slot indices from up to sixteen ticketed rings.  Its capacity
is the requested one rounded up to a power of two, and ring `r` owns the indices of
residue class `r`.  The ring at which an acquire starts comes from the address of a
stack local: here it is an argument.
-/

namespace BcpFlux.Pool
open Library Function

def spread (s n : ℕ) : ℕ := n ||| n >>> s

/-- `NextPowerOfTwo`: smear the bits of `n - 1` downwards and add one, in 32 bits. -/
def nextPowerOfTwo (n : ℕ) : ℕ :=
  if n = 0 then 1
  else u32 (spread 16 (spread 8 (spread 4 (spread 2 (spread 1 (n - 1))))) + 1)

variable {n : ℕ}

theorem testBit_spread {m w : ℕ} (h : ∀ i, m.testBit i = true ↔ ∃ d < w, n.testBit (i + d) = true)
    (i : ℕ) : (spread w m).testBit i = true ↔ ∃ d < 2 * w, n.testBit (i + d) = true := by
  rw [spread, Nat.testBit_or, Nat.testBit_shiftRight, Bool.or_eq_true, h, h]
  constructor
  · rintro (⟨d, hd, hbit⟩ | ⟨d, hd, hbit⟩)
    · exact ⟨d, by omega, hbit⟩
    · exact ⟨w + d, by omega, by rwa [show i + (w + d) = w + i + d by omega]⟩
  · rintro ⟨d, hd, hbit⟩
    by_cases hw : d < w
    · exact .inl ⟨d, hw, hbit⟩
    · exact .inr ⟨d - w, by omega, by rwa [show w + i + (d - w) = i + d by omega]⟩

theorem spread_all (hn : n < 2 ^ 32) :
    spread 16 (spread 8 (spread 4 (spread 2 (spread 1 n)))) = 2 ^ n.size - 1 := by
  have h1 : ∀ i, n.testBit i = true ↔ ∃ d < 1, n.testBit (i + d) = true := by simp
  have h32 := testBit_spread (testBit_spread (testBit_spread (testBit_spread (testBit_spread h1))))
  apply Nat.eq_of_testBit_eq
  intro i
  rw [Bool.eq_iff_iff, h32, Nat.testBit_two_pow_sub_one, decide_eq_true_iff, Nat.lt_size]
  constructor
  · rintro ⟨d, -, hbit⟩
    exact le_trans (Nat.pow_le_pow_right (by omega) (by omega)) (Nat.ge_two_pow_of_testBit hbit)
  · intro hi
    -- the leading bit of `n` is within thirty-two places of every bit below it
    have hne : n ≠ 0 := by
      rintro rfl
      exact absurd hi (by simp)
    have hlog : i ≤ n.log2 := (Nat.le_log2 hne).mpr hi
    have hlt : n.log2 < 32 := (Nat.log2_lt hne).mpr hn
    exact ⟨n.log2 - i, by omega, by rw [Nat.add_sub_cancel' hlog]; exact Nat.testBit_log2 hne⟩

theorem nextPowerOfTwo_eq (hpos : 0 < n) (hn : n ≤ 2 ^ 32) :
    nextPowerOfTwo n = u32 (2 ^ (n - 1).size) := by
  rw [nextPowerOfTwo, if_neg (by omega), spread_all (by omega),
    Nat.sub_add_cancel (Nat.two_pow_pos _)]

theorem nextPowerOfTwo_of_isPow2 (h : IsPow2 n) (hn : n ≤ 2 ^ 31) :
    nextPowerOfTwo n = n := by
  obtain ⟨k, rfl⟩ := h
  have hsize : (2 ^ k - 1).size = k := by
    apply le_antisymm
    · exact Nat.size_le.mpr (by have := Nat.two_pow_pos k; omega)
    · rcases k with _ | k
      · exact Nat.zero_le _
      · rw [Nat.succ_le_iff, Nat.lt_size, Nat.pow_succ]
        have := Nat.two_pow_pos k
        omega
  rw [nextPowerOfTwo_eq (Nat.two_pow_pos k) (by omega), hsize]
  exact Nat.mod_eq_of_lt (by omega)

theorem nextPowerOfTwo_spec (hn : n < 2 ^ 32) (hne : nextPowerOfTwo n ≠ 0) :
    IsPow2 (nextPowerOfTwo n) ∧ n ≤ nextPowerOfTwo n ∧ nextPowerOfTwo n ≤ 2 ^ 31 := by
  rcases Nat.eq_zero_or_pos n with rfl | hpos
  · exact ⟨⟨0, rfl⟩, by simp [nextPowerOfTwo], by simp [nextPowerOfTwo]⟩
  rw [nextPowerOfTwo_eq hpos hn.le] at hne ⊢
  have hsize : (n - 1).size ≤ 31 := by
    by_contra hgt
    have hle : (n - 1).size ≤ 32 := Nat.size_le.mpr (by omega)
    rw [show (n - 1).size = 32 by omega] at hne
    exact hne rfl
  have hle : 2 ^ (n - 1).size ≤ 2 ^ 31 := Nat.pow_le_pow_right (by omega) hsize
  have hmod : u32 (2 ^ (n - 1).size) = 2 ^ (n - 1).size := Nat.mod_eq_of_lt (by omega)
  have hlt := Nat.lt_size_self (n - 1)
  rw [hmod]
  exact ⟨⟨_, rfl⟩, by omega, hle⟩

theorem le_nextPowerOfTwo (hn : n ≤ 2 ^ 30) : n ≤ nextPowerOfTwo n := by
  by_cases hzero : n = 0
  · rw [hzero]
    exact Nat.zero_le _
  have hsize : (n - 1).size ≤ 30 := Nat.size_le.mpr (by omega)
  have hpow : 2 ^ (n - 1).size ≤ 2 ^ 30 := Nat.pow_le_pow_right (by omega) hsize
  have hne : nextPowerOfTwo n ≠ 0 := by
    rw [nextPowerOfTwo_eq (by omega) (by omega), u32, Nat.mod_eq_of_lt (by omega)]
    exact (Nat.two_pow_pos _).ne'
  exact (nextPowerOfTwo_spec (by omega) hne).2.1

@[irreducible] def cursorWrap : ℕ := 2 ^ 32

def shardLimit : ℕ := 16

structure SlotPool where
  capacity : ℕ
  shardCount : ℕ
  /-- Indices, and cells, of one ring. -/
  perCap : ℕ
  rings : ℕ → TicketRing ℕ

/-- How `Acquire` on a pool of type `π` ends.  `spins` is a call that does not return. -/
inductive Acquired (π : Type) where
  | index (idx : ℕ) (pool : π)
  | invalid
  | spins

/-- The same answer from a pool that this one is a part of. -/
def Acquired.lift {π ρ : Type} (index : ℕ → ℕ) (pool : π → ρ) : Acquired π → Acquired ρ
  | .index idx p => .index (index idx) (pool p)
  | .invalid => .invalid
  | .spins => .spins

namespace SlotPool

/-- `Init`: every ring starts full of its own residue class.  A capacity that rounds to
zero has no ring to divide the indices over: the division traps. -/
def init (capacity : ℕ) : Option SlotPool :=
  let capacity := nextPowerOfTwo capacity
  let shardCount := min capacity shardLimit
  if capacity = 0 then none
  else some
    { capacity := capacity
      shardCount := shardCount
      perCap := capacity / shardCount
      rings := fun r => .full cursorWrap (capacity / shardCount) fun k => r + k * shardCount }

def withRing (pool : SlotPool) (ring : ℕ) (r : TicketRing ℕ) : SlotPool :=
  { pool with rings := update pool.rings ring r }

@[simp] theorem withRing_capacity (pool : SlotPool) (ring : ℕ) (r : TicketRing ℕ) :
    (pool.withRing ring r).capacity = pool.capacity := rfl

@[simp] theorem withRing_shardCount (pool : SlotPool) (ring : ℕ) (r : TicketRing ℕ) :
    (pool.withRing ring r).shardCount = pool.shardCount := rfl

def tryAcquireFrom (pool : SlotPool) (ring : ℕ) : Take ℕ :=
  (pool.rings ring).take cursorWrap pool.perCap

/-- One turn of the loop of `Acquire`: an empty ring passes on to what the `next` one gives. -/
def orNext (pool : SlotPool) (ring : ℕ) (next : Acquired SlotPool) : Take ℕ → Acquired SlotPool
  | .took idx r => .index idx (pool.withRing ring r)
  | .empty => next
  | .stuck => .spins

/-- The loop of `Acquire`: `left` rings are still to be tried, this one is `hop` further. -/
def acquireHop (pool : SlotPool) (start : ℕ) : ℕ → ℕ → Acquired SlotPool
  | 0, _ => .invalid
  | left + 1, hop =>
    let ring := slot pool.shardCount (start + hop)
    pool.orNext ring (acquireHop pool start left (hop + 1)) (pool.tryAcquireFrom ring)

def acquire (pool : SlotPool) (hint : ℕ) : Acquired SlotPool :=
  pool.acquireHop (slot pool.shardCount hint) pool.shardCount 0

/-- `Release`; `none` is a call that does not return. -/
def release (pool : SlotPool) (idx : ℕ) : Option SlotPool :=
  let ring := slot pool.shardCount idx
  ((pool.rings ring).give cursorWrap pool.perCap idx).map fun r => pool.withRing ring r

/-! ## What the rings stand for -/

/-- The rings hold the free indices `free r`, each in the ring of its residue class. -/
structure Free (pool : SlotPool) (free : ℕ → List ℕ) : Prop where
  shards : IsPow2 pool.shardCount
  per : IsPow2 pool.perCap
  total : pool.capacity = pool.shardCount * pool.perCap
  dvd : pool.perCap ∣ cursorWrap
  holds : ∀ r < pool.shardCount, ∃ t, (pool.rings r).Holds cursorWrap pool.perCap (free r) t
  home : ∀ r < pool.shardCount, ∀ i ∈ free r, i < pool.capacity ∧ i % pool.shardCount = r
  nodup : ∀ r < pool.shardCount, (free r).Nodup

/-- The indices in `leased` are those out of the pool: inside its capacity and not free. -/
def Tracks (pool : SlotPool) (leased : Set ℕ) : Prop :=
  ∃ free, pool.Free free ∧ ∀ i, i ∈ leased ↔ i < pool.capacity ∧ i ∉ free (i % pool.shardCount)

theorem one_lt_cursorWrap : 1 < cursorWrap := by
  rw [cursorWrap]
  decide

theorem min_shardLimit (e : ℕ) : ∃ s ≤ e, min (2 ^ e) shardLimit = 2 ^ s := by
  by_cases h4 : 4 ≤ e
  · exact ⟨4, h4, min_eq_right (Nat.pow_le_pow_right (n := 2) (by omega) h4)⟩
  · exact ⟨e, le_rfl, min_eq_left (Nat.pow_le_pow_right (n := 2) (by omega) (by omega : e ≤ 4))⟩

variable {count : ℕ} {pool : SlotPool}

theorem init_spec (hcount : count < 2 ^ 32)
    (h : init count = some pool) :
    pool.capacity = nextPowerOfTwo count ∧ count ≤ pool.capacity ∧ pool.capacity ≤ 2 ^ 31 ∧
      pool.Free fun r => (List.range pool.perCap).map fun k => r + k * pool.shardCount := by
  by_cases hzero : nextPowerOfTwo count = 0
  · simp [init, hzero] at h
  · simp only [init, hzero, if_false, Option.some.injEq] at h
    obtain ⟨⟨e, he⟩, hle, hmax⟩ := nextPowerOfTwo_spec hcount hzero
    obtain ⟨s, hs, hmin⟩ := min_shardLimit e
    rw [← he] at hmin
    have hper : nextPowerOfTwo count / min (nextPowerOfTwo count) shardLimit = 2 ^ (e - s) := by
      rw [hmin, he]
      exact Nat.pow_div hs (by omega)
    have he31 : e ≤ 31 := (Nat.pow_le_pow_iff_right (by omega)).mp (he ▸ hmax)
    subst h
    refine ⟨rfl, hle, hmax, ⟨⟨s, hmin⟩, ⟨e - s, hper⟩, ?_, ?_, ?_, ?_, ?_⟩⟩
    · dsimp only
      rw [hper, hmin, ← Nat.pow_add, he]
      congr 1
      omega
    · rw [hper, cursorWrap]
      exact Nat.pow_dvd_pow 2 (by omega)
    · intro r _
      exact ⟨0, TicketRing.holds_full _⟩
    · intro r hr i hi
      simp only [List.mem_map, List.mem_range] at hi
      obtain ⟨k, hk, rfl⟩ := hi
      dsimp only at hr ⊢
      rw [hper] at hk
      rw [hmin] at hr ⊢
      constructor
      · have hmul : (k + 1) * 2 ^ s ≤ 2 ^ (e - s) * 2 ^ s := Nat.mul_le_mul_right _ hk
        rw [← Nat.pow_add, show e - s + s = e by omega, ← he, Nat.add_mul] at hmul
        omega
      · rw [Nat.add_mul_mod_self_right, Nat.mod_eq_of_lt hr]
    · intro r _
      refine List.Nodup.map ?_ List.nodup_range
      intro a b hab
      have hpos : 0 < min (nextPowerOfTwo count) shardLimit := by rw [hmin]; exact Nat.two_pow_pos s
      exact Nat.eq_of_mul_eq_mul_right hpos (by dsimp only at hab; omega)

theorem init_rounds_up (hcount : count < 2 ^ 32)
    (h : init count = some pool) (hpow : ¬ IsPow2 count) : count < pool.capacity := by
  obtain ⟨hcap, hle, -, hfree⟩ := init_spec hcount h
  have hne : pool.capacity ≠ 0 := by
    rw [hfree.total]
    exact Nat.mul_ne_zero hfree.shards.pos.ne' hfree.per.pos.ne'
  rw [hcap] at hne hle ⊢
  refine lt_of_le_of_ne hle fun heq => hpow ?_
  rw [heq]
  exact (nextPowerOfTwo_spec hcount hne).1

theorem Free.mem_class {free : ℕ → List ℕ} (h : pool.Free free) {i : ℕ} (hi : i < pool.capacity) :
    i ∈ (List.range pool.perCap).map fun k => i % pool.shardCount + k * pool.shardCount := by
  refine List.mem_map.mpr ⟨i / pool.shardCount, List.mem_range.mpr ?_, Nat.mod_add_div' _ _⟩
  rwa [Nat.div_lt_iff_lt_mul h.shards.pos, Nat.mul_comm, ← h.total]

theorem init_queued {raw : ℕ} (hcount : count < 2 ^ 32)
    (h : init count = some pool) (hraw : raw < pool.capacity) :
    ∃ free pre rest, pool.Free free ∧ free (raw % pool.shardCount) = pre ++ raw :: rest := by
  obtain ⟨-, -, -, hfree⟩ := init_spec hcount h
  obtain ⟨pre, rest, hsplit⟩ := List.append_of_mem (hfree.mem_class hraw)
  exact ⟨_, pre, rest, hfree, hsplit⟩

section Operations
variable {pool : SlotPool} {free : ℕ → List ℕ}

variable {ring : ℕ} {r : TicketRing ℕ}

theorem Free.withRing (h : pool.Free free) {t : ℕ} {q : List ℕ}
    (hr : r.Holds cursorWrap pool.perCap q t) (hnodup : q.Nodup)
    (hhome : ∀ i ∈ q, i < pool.capacity ∧ i % pool.shardCount = ring) :
    (pool.withRing ring r).Free (update free ring q) where
  __ := h
  holds k hk := by
    by_cases hkr : k = ring
    · subst hkr
      exact ⟨t, by simpa [SlotPool.withRing] using hr⟩
    · simpa [SlotPool.withRing, hkr] using h.holds k hk
  home k hk i hi := by
    by_cases hkr : k = ring
    · subst hkr
      exact hhome i (by simpa using hi)
    · exact h.home k hk i (by simpa [hkr] using hi)
  nodup k hk := by
    by_cases hkr : k = ring
    · subst hkr
      simpa using hnodup
    · simpa [hkr] using h.nodup k hk

theorem Free.tryAcquireFrom (h : pool.Free free) (hring : ring < pool.shardCount) :
    (free ring = [] ∧ pool.tryAcquireFrom ring = .empty) ∨
      ∃ idx rest r, free ring = idx :: rest ∧ pool.tryAcquireFrom ring = .took idx r ∧
        (pool.withRing ring r).Free (update free ring rest) := by
  obtain ⟨t, ht⟩ := h.holds ring hring
  cases hq : free ring with
  | nil =>
    rw [hq] at ht
    exact .inl ⟨rfl, TicketRing.take_empty h.per h.dvd one_lt_cursorWrap ht⟩
  | cons idx rest =>
    rw [hq] at ht
    obtain ⟨r, htake, hr⟩ := TicketRing.take_cons h.per h.dvd one_lt_cursorWrap ht
    have hnodup := h.nodup ring hring
    have hhome := h.home ring hring
    rw [hq] at hnodup hhome
    refine .inr ⟨idx, rest, r, rfl, htake, h.withRing hr hnodup.of_cons ?_⟩
    intro i hi
    exact hhome i (List.mem_cons_of_mem _ hi)

theorem Free.acquireHop (h : pool.Free free) (start left hop : ℕ) :
    (pool.acquireHop start left hop = .invalid ∧
      ∀ k < left, free (slot pool.shardCount (start + (hop + k))) = []) ∨
      ∃ ring idx rest r, ring < pool.shardCount ∧ free ring = idx :: rest ∧
        pool.acquireHop start left hop = .index idx (pool.withRing ring r) ∧
        (pool.withRing ring r).Free (update free ring rest) := by
  induction left generalizing hop with
  | zero => exact .inl ⟨rfl, fun k hk => absurd hk (Nat.not_lt_zero k)⟩
  | succ left ih =>
    have hring := h.shards.slot_lt (start + hop)
    rcases h.tryAcquireFrom hring with ⟨hnil, hempty⟩ | ⟨idx, rest, r, hq, htook, hfree⟩
    · rw [SlotPool.acquireHop, hempty, orNext]
      refine (ih (hop + 1)).imp_left fun ⟨hinv, hrest⟩ => ⟨hinv, fun k hk => ?_⟩
      cases k with
      | zero => exact hnil
      | succ k =>
        rw [show hop + (k + 1) = hop + 1 + k by omega]
        exact hrest k (by omega)
    · refine .inr ⟨_, idx, rest, r, hring, hq, ?_, hfree⟩
      rw [SlotPool.acquireHop, htook, orNext]

theorem Free.hop_reaches (h : pool.Free free) (hint : ℕ) (hring : ring < pool.shardCount) :
    ∃ k < pool.shardCount, slot pool.shardCount (slot pool.shardCount hint + (0 + k)) = ring := by
  have hstart := h.shards.slot_lt hint
  simp only [h.shards.slot_eq] at hstart ⊢
  by_cases hle : hint % pool.shardCount ≤ ring
  · refine ⟨ring - hint % pool.shardCount, by omega, ?_⟩
    rw [show hint % pool.shardCount + (0 + (ring - hint % pool.shardCount)) = ring by omega,
      Nat.mod_eq_of_lt hring]
  · refine ⟨ring + pool.shardCount - hint % pool.shardCount, by omega, ?_⟩
    rw [show hint % pool.shardCount + (0 + (ring + pool.shardCount - hint % pool.shardCount)) =
        ring + pool.shardCount by omega, Nat.add_mod_right, Nat.mod_eq_of_lt hring]

variable {idx : ℕ}

theorem Free.acquire_start (h : pool.Free free) {rest : List ℕ}
    (hring : ring < pool.shardCount) (hq : free ring = idx :: rest) :
    ∃ r, pool.acquire ring = .index idx (pool.withRing ring r) ∧
      (pool.withRing ring r).Free (update free ring rest) := by
  have hslot : slot pool.shardCount ring = ring := by
    rw [h.shards.slot_eq, Nat.mod_eq_of_lt hring]
  rcases h.tryAcquireFrom hring with ⟨hnil, -⟩ | ⟨idx', rest', r, hq', htook, hfree⟩
  · rw [hnil] at hq
    cases hq
  · obtain ⟨rfl, rfl⟩ : idx' = idx ∧ rest' = rest := by simpa [hq'] using hq
    refine ⟨r, ?_, hfree⟩
    obtain ⟨left, hleft⟩ := Nat.exists_eq_succ_of_ne_zero h.shards.pos.ne'
    rw [SlotPool.acquire, hslot, hleft, SlotPool.acquireHop, Nat.add_zero, hslot, htook, orNext]

variable {i : ℕ}

theorem Free.length_lt (h : pool.Free free) (hi : i < pool.capacity)
    (hout : i ∉ free (i % pool.shardCount)) :
    (free (i % pool.shardCount)).length < pool.perCap := by
  have hring : i % pool.shardCount < pool.shardCount := Nat.mod_lt _ h.shards.pos
  have hhome : ∀ j ∈ i :: free (i % pool.shardCount),
      j < pool.capacity ∧ j % pool.shardCount = i % pool.shardCount := by
    intro j hj
    rcases List.mem_cons.mp hj with rfl | hj
    · exact ⟨hi, rfl⟩
    · exact h.home _ hring j hj
  have hnodup : (i :: free (i % pool.shardCount)).Nodup := List.nodup_cons.mpr ⟨hout, h.nodup _ hring⟩
  -- within one class an index is determined by its quotient, and there are `perCap` quotients
  have hquot : ((i :: free (i % pool.shardCount)).map (· / pool.shardCount)).Nodup := by
    refine List.Nodup.map_on ?_ hnodup
    intro a ha b hb hab
    rw [← Nat.div_add_mod a pool.shardCount, ← Nat.div_add_mod b pool.shardCount, hab,
      (hhome a ha).2, (hhome b hb).2]
  have hsub : (i :: free (i % pool.shardCount)).map (· / pool.shardCount) ⊆ List.range pool.perCap := by
    intro k hk
    obtain ⟨j, hj, rfl⟩ := List.mem_map.mp hk
    rw [List.mem_range, Nat.div_lt_iff_lt_mul h.shards.pos, Nat.mul_comm, ← h.total]
    exact (hhome j hj).1
  have hlen := (hquot.subperm hsub).length_le
  simp only [List.length_map, List.length_cons, List.length_range] at hlen
  omega

theorem Free.release (h : pool.Free free) (hi : i < pool.capacity)
    (hout : i ∉ free (i % pool.shardCount)) :
    ∃ r, pool.release i = some (pool.withRing (i % pool.shardCount) r) ∧
      (pool.withRing (i % pool.shardCount) r).Free
        (update free (i % pool.shardCount) (free (i % pool.shardCount) ++ [i])) := by
  have hring : i % pool.shardCount < pool.shardCount := Nat.mod_lt _ h.shards.pos
  obtain ⟨t, ht⟩ := h.holds _ hring
  obtain ⟨r, hgive, hr⟩ :=
    TicketRing.give_room h.per h.dvd one_lt_cursorWrap ht i (h.length_lt hi hout)
  refine ⟨r, ?_, h.withRing hr ?_ ?_⟩
  · rw [SlotPool.release, h.shards.slot_eq, hgive]
    rfl
  · rw [List.nodup_append]
    refine ⟨h.nodup _ hring, List.nodup_singleton i, ?_⟩
    rintro a ha b hb rfl
    rw [List.mem_singleton] at hb
    exact hout (hb ▸ ha)
  · intro j hj
    rcases List.mem_append.mp hj with hj | hj
    · exact h.home _ hring j hj
    · rw [List.mem_singleton] at hj
      exact ⟨hj ▸ hi, by rw [hj]⟩

/-! ## Leases -/

variable {leased : Set ℕ}

theorem tracks_init (hcount : count < 2 ^ 32) (h : init count = some pool) :
    pool.Tracks ∅ := by
  have hfree := (init_spec hcount h).2.2.2
  refine ⟨_, hfree, fun i => ⟨fun hi => absurd hi (Set.notMem_empty i), fun hi => ?_⟩⟩
  exact absurd (hfree.mem_class hi.1) hi.2

theorem Tracks.acquire_cases (h : pool.Tracks leased) (hint : ℕ) :
    (pool.acquire hint = .invalid ∧ ∀ i < pool.capacity, i ∈ leased) ∨
      ∃ idx pool', pool.acquire hint = .index idx pool' ∧ pool'.capacity = pool.capacity ∧
        idx < pool.capacity ∧ idx ∉ leased ∧ pool'.Tracks (insert idx leased) := by
  obtain ⟨free, hfree, hleased⟩ := h
  rcases hfree.acquireHop (slot pool.shardCount hint) pool.shardCount 0 with
    ⟨hinv, hempty⟩ | ⟨ring, idx, rest, r, hring, hq, hidx, hfree'⟩
  · refine .inl ⟨hinv, fun i hi => (hleased i).mpr ⟨hi, ?_⟩⟩
    obtain ⟨k, hk, hreach⟩ := hfree.hop_reaches hint (Nat.mod_lt i hfree.shards.pos)
    rw [← hreach, hempty k hk]
    exact List.not_mem_nil
  have hqnodup := hfree.nodup ring hring
  obtain ⟨hlt, hhome⟩ := hfree.home ring hring idx (hq ▸ List.mem_cons_self)
  have hnew : idx ∉ leased := by
    intro hmem
    apply ((hleased idx).mp hmem).2
    rw [hhome, hq]
    exact List.mem_cons_self
  refine .inr ⟨idx, _, hidx, rfl, hlt, hnew, _, hfree', ?_⟩
  intro i
  rw [withRing_capacity, withRing_shardCount, Set.mem_insert_iff, hleased]
  rw [hq, List.nodup_cons] at hqnodup
  by_cases hir : i % pool.shardCount = ring
  · rw [hir, update_self, hq, List.mem_cons]
    constructor
    · rintro (rfl | ⟨hi, hout⟩)
      · exact ⟨hlt, hqnodup.1⟩
      · exact ⟨hi, fun hmem => hout (.inr hmem)⟩
    · rintro ⟨hi, hout⟩
      by_cases hsame : i = idx
      · exact .inl hsame
      · exact .inr ⟨hi, fun hmem => hmem.elim hsame hout⟩
  · have hne : i ≠ idx := by
      rintro rfl
      exact hir hhome
    rw [update_of_ne hir, or_iff_right hne]

theorem Tracks.release (h : pool.Tracks leased) (hi : i ∈ leased) :
    ∃ pool', pool.release i = some pool' ∧ pool'.capacity = pool.capacity ∧
      pool'.Tracks (leased \ {i}) := by
  obtain ⟨free, hfree, hleased⟩ := h
  obtain ⟨hlt, hout⟩ := (hleased i).mp hi
  obtain ⟨r, hrel, hfree'⟩ := hfree.release hlt hout
  refine ⟨_, hrel, rfl, _, hfree', ?_⟩
  intro j
  rw [withRing_capacity, withRing_shardCount, Set.mem_sdiff, hleased, Set.mem_singleton_iff]
  by_cases hji : j % pool.shardCount = i % pool.shardCount
  · rw [hji, update_self, List.mem_append, List.mem_singleton, not_or, and_assoc]
  · have hne : j ≠ i := by
      rintro rfl
      exact hji rfl
    rw [update_of_ne hji, and_iff_left hne]

theorem Tracks.lt_capacity (h : pool.Tracks leased) (hi : i ∈ leased) :
    i < pool.capacity := by
  obtain ⟨_, _, hleased⟩ := h
  exact ((hleased i).mp hi).1

theorem Free.turn (h : pool.Free free) {rest : List ℕ}
    (hring : ring < pool.shardCount) (hq : free ring = idx :: rest) :
    ∃ taken back, pool.acquire ring = .index idx taken ∧ taken.release idx = some back ∧
      back.capacity = pool.capacity ∧ back.shardCount = pool.shardCount ∧
      back.Free (update free ring (rest ++ [idx])) := by
  obtain ⟨r, hacq, hfree⟩ := h.acquire_start hring hq
  obtain ⟨hlt, hhome⟩ := h.home ring hring idx (hq ▸ List.mem_cons_self)
  have hnodup := h.nodup ring hring
  rw [hq] at hnodup
  have hout : idx ∉ update free ring rest (idx % pool.shardCount) := by
    rw [hhome, update_self]
    exact (List.nodup_cons.mp hnodup).1
  obtain ⟨r', hrel, hback⟩ := hfree.release (i := idx) hlt hout
  rw [withRing_shardCount, hhome] at hrel hback
  rw [update_self, update_idem] at hback
  exact ⟨_, _, hacq, hrel, rfl, rfl, hback⟩

/-! ## Bounds that survive anything

A slot released twice is in two cells, and the lists above no longer describe the rings.
What stays is that a cell holds an index below the capacity. -/

structure Bounded (pool : SlotPool) : Prop where
  shards : IsPow2 pool.shardCount
  per : IsPow2 pool.perCap
  value_lt : ∀ r < pool.shardCount, ∀ c < pool.perCap, (pool.rings r).value c < pool.capacity

theorem bounded_init (hcount : count < 2 ^ 32) (h : init count = some pool) :
    pool.Bounded := by
  have hfree := (init_spec hcount h).2.2.2
  refine ⟨hfree.shards, hfree.per, ?_⟩
  intro r hr c hc
  have hmem : r + c * pool.shardCount ∈
      (List.range pool.perCap).map fun k => r + k * pool.shardCount :=
    List.mem_map.mpr ⟨c, List.mem_range.mpr hc, rfl⟩
  have hvalue : (pool.rings r).value c = r + c * pool.shardCount := by
    unfold init at h
    dsimp only at h
    split at h
    · cases h
    · cases h
      rfl
  rw [hvalue]
  exact (hfree.home r hr _ hmem).1

theorem Bounded.withRing (h : pool.Bounded)
    (hr : ∀ c < pool.perCap, r.value c < pool.capacity) : (pool.withRing ring r).Bounded where
  shards := h.shards
  per := h.per
  value_lt k hk c hc := by
    by_cases hkr : k = ring
    · subst hkr
      simpa [SlotPool.withRing] using hr c hc
    · simpa [SlotPool.withRing, hkr] using h.value_lt k hk c hc

theorem Bounded.tryAcquireFrom (h : pool.Bounded)
    (hring : ring < pool.shardCount) (htook : pool.tryAcquireFrom ring = .took idx r) :
    idx < pool.capacity ∧ (pool.withRing ring r).Bounded := by
  unfold SlotPool.tryAcquireFrom TicketRing.take at htook
  dsimp only at htook
  split at htook
  · cases htook
    exact ⟨h.value_lt ring hring _ (h.per.slot_lt _), h.withRing (h.value_lt ring hring)⟩
  · split at htook <;> cases htook

variable {pool' : SlotPool}

theorem Bounded.acquireHop (h : pool.Bounded) {start : ℕ} (left hop : ℕ)
    (hacq : pool.acquireHop start left hop = .index idx pool') :
    idx < pool.capacity ∧ pool'.Bounded ∧ pool'.capacity = pool.capacity := by
  induction left generalizing hop with
  | zero => cases hacq
  | succ left ih =>
    rw [SlotPool.acquireHop] at hacq
    cases htry : pool.tryAcquireFrom (slot pool.shardCount (start + hop)) with
    | took i r =>
      rw [htry, orNext] at hacq
      cases hacq
      obtain ⟨hlt, hbounded⟩ := h.tryAcquireFrom (h.shards.slot_lt _) htry
      exact ⟨hlt, hbounded, rfl⟩
    | empty =>
      rw [htry, orNext] at hacq
      exact ih (hop + 1) hacq
    | stuck =>
      rw [htry, orNext] at hacq
      cases hacq

theorem Bounded.acquire (h : pool.Bounded) {hint : ℕ}
    (hacq : pool.acquire hint = .index idx pool') :
    idx < pool.capacity ∧ pool'.Bounded ∧ pool'.capacity = pool.capacity :=
  h.acquireHop pool.shardCount 0 hacq

theorem Bounded.release (h : pool.Bounded) (hidx : idx < pool.capacity)
    (hrel : pool.release idx = some pool') : pool'.Bounded ∧ pool'.capacity = pool.capacity := by
  rw [SlotPool.release, Option.map_eq_some_iff] at hrel
  obtain ⟨r, hgive, rfl⟩ := hrel
  refine ⟨h.withRing ?_, rfl⟩
  unfold TicketRing.give at hgive
  dsimp only at hgive
  split at hgive
  · cases hgive
    intro c hc
    dsimp only
    by_cases hcell : c = slot pool.perCap (pool.rings (slot pool.shardCount idx)).head
    · rw [hcell, update_self]
      exact hidx
    · rw [update_of_ne hcell]
      exact h.value_lt _ (h.shards.slot_lt _) c hc
  · cases hgive

end Operations

end SlotPool

end BcpFlux.Pool
