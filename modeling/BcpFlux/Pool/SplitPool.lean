import BcpFlux.Library.Runs
import BcpFlux.Pool.SlotPool

/-! # Two association pools behind one index space

`SplitAssocPool` routes an index by the counts it was configured with: below
`standardCount` to the standard pool, from there up to the sum of the counts to the
bulk pool.  The sub-pools hand out indices up to their own, rounded, capacities.
-/

namespace BcpFlux.Pool
open Library

structure SplitAssocPool where
  standardCount : ℕ
  bulkCount : ℕ
  standard : SlotPool
  bulk : SlotPool

namespace SplitAssocPool

/-- A sub-pool of count zero is left as the constructor made it. -/
def initSub (count : ℕ) : Option SlotPool :=
  if 0 < count then SlotPool.init count else some ⟨0, 0, 0, fun _ => .full cursorWrap 0 id⟩

def init (standardCount bulkCount : ℕ) : Option SplitAssocPool := do
  let standard ← initSub standardCount
  let bulk ← initSub bulkCount
  return ⟨standardCount, bulkCount, standard, bulk⟩

def acquire (pool : SplitAssocPool) (wantsBulk : Bool) (hint : ℕ) : Acquired SplitAssocPool :=
  if wantsBulk then
    if pool.bulkCount = 0 then .invalid
    else (pool.bulk.acquire hint).lift (fun raw => u32 (raw + pool.standardCount))
      fun bulk => { pool with bulk := bulk }
  else if pool.standardCount = 0 then .invalid
  else (pool.standard.acquire hint).lift id fun standard => { pool with standard := standard }

def isBulk (pool : SplitAssocPool) (slot : ℕ) : Bool := decide (pool.standardCount ≤ slot)

def holds (pool : SplitAssocPool) (slot : ℕ) : Bool :=
  decide (slot < u32 (pool.standardCount + pool.bulkCount))

/-- What `ReadLock` and `WriteLock` reach: the sub-pool and the slot in it, or null. -/
def lock (pool : SplitAssocPool) (slot : ℕ) : Option (Bool × ℕ) :=
  if !pool.holds slot then none
  else if pool.isBulk slot then some (true, slot - pool.standardCount)
  else some (false, slot)

def release (pool : SplitAssocPool) (slot : ℕ) : Option SplitAssocPool :=
  if !pool.holds slot then some pool
  else if pool.isBulk slot then
    (pool.bulk.release (slot - pool.standardCount)).map fun bulk => { pool with bulk := bulk }
  else (pool.standard.release slot).map fun standard => { pool with standard := standard }

def subPool (pool : SplitAssocPool) (bulk : Bool) : SlotPool :=
  if bulk then pool.bulk else pool.standard

def withSub (pool : SplitAssocPool) (bulk : Bool) (sub : SlotPool) : SplitAssocPool :=
  if bulk then { pool with bulk := sub } else { pool with standard := sub }

section
variable (pool : SplitAssocPool) (bulk : Bool) (sub : SlotPool)

@[simp] theorem withSub_standardCount :
    (pool.withSub bulk sub).standardCount = pool.standardCount := by
  cases bulk <;> rfl

@[simp] theorem withSub_bulkCount :
    (pool.withSub bulk sub).bulkCount = pool.bulkCount := by
  cases bulk <;> rfl

@[simp] theorem subPool_withSub :
    (pool.withSub bulk sub).subPool bulk = sub := by
  cases bulk <;> rfl

end

theorem subPool_withSub_of_ne (pool : SplitAssocPool) {bulk other : Bool} (sub : SlotPool)
    (h : other ≠ bulk) : (pool.withSub bulk sub).subPool other = pool.subPool other := by
  cases bulk <;> cases other <;> first | rfl | exact absurd rfl h

def subCount (pool : SplitAssocPool) (bulk : Bool) : ℕ :=
  if bulk then pool.bulkCount else pool.standardCount

@[simp] theorem subCount_withSub (pool : SplitAssocPool) (bulk other : Bool) (sub : SlotPool) :
    (pool.withSub bulk sub).subCount other = pool.subCount other := by
  cases bulk <;> cases other <;> rfl

def base (pool : SplitAssocPool) (bulk : Bool) : ℕ := if bulk then pool.standardCount else 0

@[simp] theorem base_withSub (pool : SplitAssocPool) (bulk other : Bool) (sub : SlotPool) :
    (pool.withSub bulk sub).base other = pool.base other := by
  cases bulk <;> cases other <;> rfl

theorem acquire_index {pool : SplitAssocPool} {wantsBulk : Bool} {hint raw : ℕ} {sub : SlotPool}
    (hcount : pool.subCount wantsBulk ≠ 0) (hraw : raw < 2 ^ 32)
    (h : (pool.subPool wantsBulk).acquire hint = .index raw sub) :
    pool.acquire wantsBulk hint =
      .index (u32 (raw + pool.base wantsBulk)) (pool.withSub wantsBulk sub) := by
  cases wantsBulk with
  | false =>
    simp only [subPool, Bool.false_eq_true, if_false] at h
    simp only [subCount, Bool.false_eq_true, if_false] at hcount
    have hmod : u32 raw = raw := Nat.mod_eq_of_lt hraw
    simp [acquire, hcount, h, Acquired.lift, withSub, base, hmod]
  | true =>
    simp only [subPool, if_true] at h
    simp only [subCount, if_true] at hcount
    simp [acquire, hcount, h, Acquired.lift, withSub, base]

end SplitAssocPool

/-! ## Use of the pool -/

/-- An index some association holds, with the sub-pool and sub-slot it was taken from. -/
structure SplitLease where
  index : ℕ
  bulk : Bool
  raw : ℕ
deriving DecidableEq, Repr

structure SplitUse where
  pool : SplitAssocPool
  held : List SplitLease

inductive SplitCall where
  | acquire (wantsBulk : Bool) (hint : ℕ)
  | release (index : ℕ)
deriving DecidableEq, Repr

namespace SplitUse
open SplitAssocPool

def lend (s : SplitUse) (wantsBulk : Bool) : Acquired SplitAssocPool → Acquired SlotPool → SplitUse
  | .index index pool, .index raw _ => ⟨pool, ⟨index, wantsBulk, raw⟩ :: s.held⟩
  | _, _ => s

/-- An association gives back only an index it holds. -/
def step (s : SplitUse) : SplitCall → SplitUse
  | .acquire wantsBulk hint =>
    s.lend wantsBulk (s.pool.acquire wantsBulk hint) ((s.pool.subPool wantsBulk).acquire hint)
  | .release index =>
    if s.held.any (·.index == index) then
      ⟨(s.pool.release index).getD s.pool, s.held.filter (·.index != index)⟩
    else s

/-- One sound index space: held indices differ, each resolves to the sub-pool and slot it
was taken from, `IsBulk` tells which, and none is refused. -/
structure Sound (s : SplitUse) : Prop where
  distinct : (s.held.map SplitLease.index).Nodup
  resolves : ∀ l ∈ s.held, s.pool.lock l.index = some (l.bulk, l.raw)
  isBulk : ∀ l ∈ s.held, s.pool.isBulk l.index = l.bulk
  kept : ∀ l ∈ s.held, s.pool.holds l.index = true

/-- Counts the sub-pools do not round, with a sum that does not wrap. -/
def Exact (standardCount bulkCount : ℕ) : Prop :=
  (standardCount = 0 ∨ IsPow2 standardCount) ∧ (bulkCount = 0 ∨ IsPow2 bulkCount) ∧
    standardCount + bulkCount < 2 ^ 32

/-! ## Exact counts -/

def rawHeld (s : SplitUse) (bulk : Bool) : Set ℕ :=
  { raw | ∃ l ∈ s.held, l.bulk = bulk ∧ l.raw = raw }

/-- Each index is its sub-slot, shifted past the standard ones for bulk, and each sub-pool
tracks what is out of it. -/
structure Inv (s : SplitUse) : Prop where
  sum_lt : s.pool.standardCount + s.pool.bulkCount < 2 ^ 32
  tracks : ∀ bulk, s.pool.subCount bulk ≠ 0 →
    (s.pool.subPool bulk).Tracks (s.rawHeld bulk) ∧
      (s.pool.subPool bulk).capacity = s.pool.subCount bulk
  index_eq : ∀ l ∈ s.held, l.index = l.raw + s.pool.base l.bulk
  raw_lt : ∀ l ∈ s.held, l.raw < s.pool.subCount l.bulk
  nodup : (s.held.map SplitLease.index).Nodup

section Routing
variable {pool : SplitAssocPool} {raw : ℕ} {bulk : Bool}

theorem route (hsum : pool.standardCount + pool.bulkCount < 2 ^ 32) (hraw : raw < pool.subCount bulk) :
    pool.isBulk (raw + pool.base bulk) = bulk ∧ pool.holds (raw + pool.base bulk) = true := by
  have hmod : u32 (pool.standardCount + pool.bulkCount) =
      pool.standardCount + pool.bulkCount := Nat.mod_eq_of_lt hsum
  cases bulk <;>
    simp only [subCount, base, Bool.false_eq_true, if_false,
      if_true] at hraw ⊢ <;>
    simp only [isBulk, holds, hmod, decide_eq_true_eq,
      decide_eq_false_iff_not] <;> omega

theorem lock_of_route (hbulk : pool.isBulk (raw + pool.base bulk) = bulk)
    (hholds : pool.holds (raw + pool.base bulk) = true) :
    pool.lock (raw + pool.base bulk) = some (bulk, raw) := by
  cases bulk <;> simp only [base, Bool.false_eq_true, if_false, if_true,
      Nat.add_zero] at hbulk hholds ⊢ <;>
    simp [lock, hbulk, hholds]

theorem release_of_route (hbulk : pool.isBulk (raw + pool.base bulk) = bulk)
    (hholds : pool.holds (raw + pool.base bulk) = true) :
    pool.release (raw + pool.base bulk) =
      ((pool.subPool bulk).release raw).map (pool.withSub bulk) := by
  cases bulk <;> simp only [base, Bool.false_eq_true, if_false, if_true,
      Nat.add_zero] at hbulk hholds ⊢ <;>
    simp [release, hbulk, hholds, subPool] <;> rfl

end Routing

variable {s : SplitUse}

theorem Inv.sound (h : s.Inv) : s.Sound := by
  have hroute : ∀ l ∈ s.held, s.pool.isBulk l.index = l.bulk ∧ s.pool.holds l.index = true := by
    intro l hl
    rw [h.index_eq l hl]
    exact route h.sum_lt (h.raw_lt l hl)
  refine ⟨h.nodup, ?_, fun l hl => (hroute l hl).1, fun l hl => (hroute l hl).2⟩
  intro l hl
  have hl' := hroute l hl
  rw [h.index_eq l hl] at hl' ⊢
  exact lock_of_route hl'.1 hl'.2

theorem Inv.lease_unique (h : s.Inv) {l m : SplitLease} (hl : l ∈ s.held) (hm : m ∈ s.held)
    (hidx : l.index = m.index) : l = m :=
  List.inj_on_of_nodup_map h.nodup hl hm hidx

theorem Inv.acquire (h : s.Inv) (wantsBulk : Bool) (hint : ℕ) :
    (s.step (.acquire wantsBulk hint)).Inv := by
  by_cases hcount : s.pool.subCount wantsBulk = 0
  · have hinv : s.pool.acquire wantsBulk hint = .invalid := by
      cases wantsBulk <;> simp_all [SplitAssocPool.acquire, SplitAssocPool.subCount]
    rw [step, hinv]
    exact h
  obtain ⟨htracks, hcap⟩ := h.tracks wantsBulk hcount
  rcases htracks.acquire_cases hint with ⟨hinv, -⟩ | ⟨raw, sub, hidx, hsub, hlt, hnew, htracks'⟩
  · rw [step, hinv]
    cases s.pool.acquire wantsBulk hint <;> exact h
  rw [hcap] at hlt
  obtain ⟨hbulk, hholds⟩ := route h.sum_lt hlt
  have hword : raw + s.pool.base wantsBulk < 2 ^ 32 :=
    lt_of_lt_of_le (of_decide_eq_true hholds) (Nat.mod_lt _ (by omega)).le
  have hindex := SplitAssocPool.acquire_index hcount (by omega) hidx
  rw [show u32 (raw + s.pool.base wantsBulk) = raw + s.pool.base wantsBulk from
    Nat.mod_eq_of_lt hword] at hindex
  rw [step, hindex, hidx, lend]
  -- an index already held would be a lease of the same sub-slot
  have hfresh : ∀ l ∈ s.held, l.index ≠ raw + s.pool.base wantsBulk := by
    intro l hl heq
    have hlroute := route h.sum_lt (h.raw_lt l hl)
    rw [← h.index_eq l hl, heq, hbulk] at hlroute
    have hraw := h.index_eq l hl
    rw [heq, hlroute.1, Nat.add_right_cancel_iff] at hraw
    exact hnew ⟨l, hl, hlroute.1.symm, hraw.symm⟩
  refine ⟨by simpa using h.sum_lt, ?_, ?_, ?_, ?_⟩
  · intro b hb
    simp only [SplitAssocPool.subCount_withSub] at hb ⊢
    by_cases hbw : b = wantsBulk
    · subst hbw
      have hset : rawHeld ⟨s.pool.withSub b sub, ⟨raw + s.pool.base b, b, raw⟩ :: s.held⟩ b =
          insert raw (s.rawHeld b) := by
        ext r
        simp [rawHeld, eq_comm]
      rw [SplitAssocPool.subPool_withSub, hset, hsub]
      exact ⟨htracks', hcap⟩
    · have hset : rawHeld ⟨s.pool.withSub wantsBulk sub,
          ⟨raw + s.pool.base wantsBulk, wantsBulk, raw⟩ :: s.held⟩ b = s.rawHeld b := by
        ext r
        simp [rawHeld, Ne.symm hbw]
      rw [SplitAssocPool.subPool_withSub_of_ne _ _ hbw, hset]
      exact h.tracks b hb
  · intro l hl
    rcases List.mem_cons.mp hl with rfl | hl
    · simp
    · simpa using h.index_eq l hl
  · intro l hl
    rcases List.mem_cons.mp hl with rfl | hl
    · simpa using hlt
    · simpa using h.raw_lt l hl
  · rw [List.map_cons, List.nodup_cons]
    refine ⟨?_, h.nodup⟩
    intro hmem
    obtain ⟨l, hl, heq⟩ := List.mem_map.mp hmem
    exact hfresh l hl heq

theorem Inv.release (h : s.Inv) (index : ℕ) : (s.step (.release index)).Inv := by
  rw [step]
  by_cases hany : s.held.any (·.index == index) = true
  · rw [if_pos hany]
    obtain ⟨l, hl, hidx⟩ := List.any_eq_true.mp hany
    rw [beq_iff_eq] at hidx
    subst hidx
    have hraw := h.raw_lt l hl
    obtain ⟨htracks, hcap⟩ := h.tracks l.bulk (by omega)
    obtain ⟨sub, hsub, hcap', htracks'⟩ := htracks.release ⟨l, hl, rfl, rfl⟩
    obtain ⟨hbulk, hholds⟩ := route h.sum_lt hraw
    have hrel : s.pool.release l.index = some (s.pool.withSub l.bulk sub) := by
      rw [h.index_eq l hl, release_of_route hbulk hholds, hsub, Option.map_some]
    rw [hrel, Option.getD_some]
    have hmem : ∀ m, m ∈ s.held.filter (·.index != l.index) ↔ m ∈ s.held ∧ m ≠ l := by
      intro m
      rw [List.mem_filter, bne_iff_ne, and_congr_right_iff]
      intro hm
      exact not_congr ⟨fun heq => h.lease_unique hm hl heq, fun heq => by rw [heq]⟩
    refine ⟨by simpa using h.sum_lt, ?_, ?_, ?_, ?_⟩
    · intro b hb
      simp only [subCount_withSub] at hb ⊢
      by_cases hbl : b = l.bulk
      · subst hbl
        have hset : rawHeld ⟨s.pool.withSub l.bulk sub, s.held.filter (·.index != l.index)⟩ l.bulk =
            s.rawHeld l.bulk \ {l.raw} := by
          ext r
          simp only [rawHeld, hmem, Set.mem_ofPred_eq, Set.mem_sdiff, Set.mem_singleton_iff]
          constructor
          · rintro ⟨m, ⟨hm, hne⟩, hmb, rfl⟩
            refine ⟨⟨m, hm, hmb, rfl⟩, fun heq => hne (h.lease_unique hm hl ?_)⟩
            rw [h.index_eq m hm, h.index_eq l hl, heq, hmb]
          · rintro ⟨⟨m, hm, hmb, rfl⟩, hne⟩
            exact ⟨m, ⟨hm, fun heq => hne (by rw [heq])⟩, hmb, rfl⟩
        rw [subPool_withSub, hset, hcap']
        exact ⟨htracks', hcap⟩
      · have hset : rawHeld ⟨s.pool.withSub l.bulk sub, s.held.filter (·.index != l.index)⟩ b =
            s.rawHeld b := by
          ext r
          simp only [rawHeld, hmem, Set.mem_ofPred_eq]
          constructor
          · rintro ⟨m, ⟨hm, -⟩, hmb, hmr⟩
            exact ⟨m, hm, hmb, hmr⟩
          · rintro ⟨m, hm, hmb, hmr⟩
            exact ⟨m, ⟨hm, fun heq => hbl (by rw [← hmb, heq])⟩, hmb, hmr⟩
        rw [subPool_withSub_of_ne _ _ hbl, hset]
        exact h.tracks b hb
    · intro m hm
      simpa using h.index_eq m ((hmem m).mp hm).1
    · intro m hm
      simpa using h.raw_lt m ((hmem m).mp hm).1
    · exact h.nodup.sublist (List.filter_sublist.map _)
  · rw [if_neg hany]
    exact h

theorem Inv.step (h : s.Inv) (call : SplitCall) : (s.step call).Inv := by
  cases call with
  | acquire wantsBulk hint => exact h.acquire wantsBulk hint
  | release index => exact h.release index

variable {standardCount bulkCount : ℕ} {pool : SplitAssocPool}

/-! ## Fresh pools -/

theorem init_cases
    (h : init standardCount bulkCount = some pool) :
    pool.standardCount = standardCount ∧ pool.bulkCount = bulkCount ∧
      ∀ bulk, pool.subCount bulk ≠ 0 →
        SlotPool.init (pool.subCount bulk) = some (pool.subPool bulk) := by
  simp only [init, Option.bind_eq_bind, Option.bind_eq_some_iff,
    Option.pure_def, Option.some.injEq] at h
  obtain ⟨standard, hstandard, bulk, hbulk, rfl⟩ := h
  refine ⟨rfl, rfl, ?_⟩
  rintro (_ | _) hb
  · simp only [subCount, Bool.false_eq_true, if_false] at hb ⊢
    rwa [initSub, if_pos (Nat.pos_of_ne_zero hb)] at hstandard
  · simp only [subCount, if_true] at hb ⊢
    rwa [initSub, if_pos (Nat.pos_of_ne_zero hb)] at hbulk

theorem le_of_isPow2 {n : ℕ} (h : IsPow2 n) (hn : n < 2 ^ 32) : n ≤ 2 ^ 31 := by
  obtain ⟨k, rfl⟩ := h
  have hk : k < 32 := (Nat.pow_lt_pow_iff_right (by omega)).mp hn
  exact Nat.pow_le_pow_right (by omega) (by omega)

theorem inv_init
    (h : init standardCount bulkCount = some pool)
    (hexact : Exact standardCount bulkCount) : (⟨pool, []⟩ : SplitUse).Inv := by
  obtain ⟨rfl, rfl, hsub⟩ := init_cases h
  obtain ⟨hstandard, hbulk, hsum⟩ := hexact
  refine ⟨hsum, ?_, by simp, by simp, List.nodup_nil⟩
  intro b hb
  have hpow : IsPow2 (pool.subCount b) ∧ pool.subCount b < 2 ^ 32 := by
    cases b <;> simp only [subCount, Bool.false_eq_true, if_false, if_true] at hb ⊢
    · exact ⟨hstandard.resolve_left hb, by omega⟩
    · exact ⟨hbulk.resolve_left hb, by omega⟩
  have hcap := (SlotPool.init_spec hpow.2 (hsub b hb)).1
  rw [nextPowerOfTwo_of_isPow2 hpow.1 (le_of_isPow2 hpow.1 hpow.2)] at hcap
  have hempty : rawHeld ⟨pool, []⟩ b = ∅ := by simp [rawHeld]
  rw [hempty]
  exact ⟨SlotPool.tracks_init hpow.2 (hsub b hb), hcap⟩

theorem reach_lease {bulk : Bool} {ring raw : ℕ} {pre rest : List ℕ} {free : ℕ → List ℕ}
    (hcount : s.pool.subCount bulk ≠ 0) (hfree : (s.pool.subPool bulk).Free free)
    (hcap : (s.pool.subPool bulk).capacity ≤ 2 ^ 31)
    (hring : ring < (s.pool.subPool bulk).shardCount) (hq : free ring = pre ++ raw :: rest) :
    ∃ calls, (run step s calls).pool.standardCount = s.pool.standardCount ∧
      (run step s calls).pool.bulkCount = s.pool.bulkCount ∧
      ⟨u32 (raw + s.pool.base bulk), bulk, raw⟩ ∈ (run step s calls).held := by
  induction pre generalizing s free with
  | nil =>
    obtain ⟨r, hacq, -⟩ := hfree.acquire_start hring hq
    have hraw := (hfree.home ring hring raw (hq ▸ List.mem_cons_self)).1
    have hindex := acquire_index hcount (by omega) hacq
    refine ⟨[.acquire bulk ring], ?_⟩
    rw [run_cons, run_nil, step, hindex, hacq, lend]
    simp
  | cons first pre ih =>
    obtain ⟨r, hacq, hfree'⟩ := hfree.acquire_start hring hq
    have hfirst := (hfree.home ring hring first (hq ▸ List.mem_cons_self)).1
    have hindex := acquire_index hcount (by omega) hacq
    have hstep : s.step (.acquire bulk ring) =
        ⟨s.pool.withSub bulk ((s.pool.subPool bulk).withRing ring r),
          ⟨u32 (first + s.pool.base bulk), bulk, first⟩ :: s.held⟩ := by
      rw [step, hindex, hacq, lend]
    obtain ⟨calls, hcalls⟩ := ih (s := s.step (.acquire bulk ring)) (by simpa [hstep] using hcount)
      (by simpa [hstep] using hfree') (by simpa [hstep] using hcap) (by simpa [hstep] using hring)
      (by simp)
    refine ⟨.acquire bulk ring :: calls, ?_⟩
    simpa [hstep] using hcalls

theorem reach_raw
    (h : init standardCount bulkCount = some pool) (bulk : Bool) (raw : ℕ)
    (hcount : pool.subCount bulk ≠ 0) (hword : pool.subCount bulk < 2 ^ 32)
    (hraw : raw < (pool.subPool bulk).capacity) :
    ∃ calls, (run step ⟨pool, []⟩ calls).pool.standardCount = pool.standardCount ∧
      (run step ⟨pool, []⟩ calls).pool.bulkCount = pool.bulkCount ∧
      ⟨u32 (raw + pool.base bulk), bulk, raw⟩ ∈ (run step ⟨pool, []⟩ calls).held := by
  obtain ⟨-, -, hsub⟩ := init_cases h
  obtain ⟨-, -, hmax, hfresh⟩ := SlotPool.init_spec hword (hsub bulk hcount)
  obtain ⟨free, pre, rest, hfree, hq⟩ := SlotPool.init_queued hword (hsub bulk hcount) hraw
  exact reach_lease (s := ⟨pool, []⟩) hcount hfree hmax (Nat.mod_lt raw hfresh.shards.pos) hq

section Rounded
variable {standardCount bulkCount : ℕ} {pool : SplitAssocPool}
variable (hinit : init standardCount bulkCount = some pool)
variable (hsound : ∀ calls, (run step ⟨pool, []⟩ calls).Sound)
include hinit hsound

theorem standard_exact (hword : standardCount < 2 ^ 32) :
    standardCount = 0 ∨ IsPow2 standardCount := by
  obtain ⟨rfl, -, hsub⟩ := init_cases hinit
  by_contra hbad
  obtain ⟨hne, hpow⟩ := not_or.mp hbad
  obtain ⟨calls, hcount, -, hmem⟩ := reach_raw hinit false _ hne hword
    (SlotPool.init_rounds_up hword (hsub false hne) hpow)
  have hindex : u32 (pool.standardCount + pool.base false) = pool.standardCount :=
    Nat.mod_eq_of_lt hword
  have hbulk := (hsound calls).isBulk _ hmem
  simp only [hindex, isBulk, hcount, le_refl, decide_true] at hbulk
  cases hbulk

theorem bulk_exact (hword : bulkCount < 2 ^ 32) : bulkCount = 0 ∨ IsPow2 bulkCount := by
  obtain ⟨-, rfl, hsub⟩ := init_cases hinit
  by_contra hbad
  obtain ⟨hne, hpow⟩ := not_or.mp hbad
  obtain ⟨calls, hstandard, hbulk, hmem⟩ := reach_raw hinit true _ hne hword
    (SlotPool.init_rounds_up hword (hsub true hne) hpow)
  have hkept := (hsound calls).kept _ hmem
  simp only [holds, hstandard, hbulk, base, if_true,
    decide_eq_true_eq] at hkept
  rw [Nat.add_comm] at hkept
  exact lt_irrefl _ hkept

theorem sum_exact (hstandard : standardCount < 2 ^ 32) (hbulk : bulkCount < 2 ^ 32) :
    standardCount + bulkCount < 2 ^ 32 := by
  obtain ⟨rfl, rfl, hsub⟩ := init_cases hinit
  by_contra hwrap
  have hle : ∀ n, n = 0 ∨ IsPow2 n → n < 2 ^ 32 → n ≤ 2 ^ 31 := by
    rintro n (rfl | hn) hlt
    · omega
    · exact le_of_isPow2 hn hlt
  have hs := hle _ (standard_exact hinit hsound hstandard) hstandard
  have hb := hle _ (bulk_exact hinit hsound hbulk) hbulk
  have hne : pool.subCount false ≠ 0 := by
    show pool.standardCount ≠ 0
    omega
  obtain ⟨-, hcap, -, -⟩ := SlotPool.init_spec hstandard (hsub false hne)
  obtain ⟨calls, hcount, hcount', hmem⟩ := reach_raw hinit false 0 hne hstandard
    (lt_of_lt_of_le (Nat.pos_of_ne_zero hne) hcap)
  have hkept := (hsound calls).kept _ hmem
  have hsum : pool.standardCount + pool.bulkCount = 2 ^ 32 := by omega
  simp [holds, hcount, hcount', hsum, u32] at hkept

end Rounded

/-- Whatever is acquired and released in whatever order, the split pool is one sound index
space exactly when neither sub-pool rounds its count up and the sum of the counts does
not wrap. -/
theorem index_space_sound_iff {standardCount bulkCount : ℕ} {pool : SplitAssocPool}
    (hstandard : standardCount < 2 ^ 32) (hbulk : bulkCount < 2 ^ 32)
    (hinit : SplitAssocPool.init standardCount bulkCount = some pool) :
    (∀ calls, (run step ⟨pool, []⟩ calls).Sound) ↔ Exact standardCount bulkCount := by
  constructor
  · intro hsound
    exact ⟨standard_exact hinit hsound hstandard, bulk_exact hinit hsound hbulk,
      sum_exact hinit hsound hstandard hbulk⟩
  · intro hexact calls
    apply Inv.sound
    exact run_invariant step Inv (fun _ _ => True) (fun s call _ h => h.step call)
      (inv_init hinit hexact) (along_true step _ calls)

theorem index_space_sound_four_two : ∃ pool, SplitAssocPool.init 4 2 = some pool ∧
    ((∀ calls, (run step ⟨pool, []⟩ calls).Sound) ↔ Exact 4 2) :=
  ⟨_, rfl, index_space_sound_iff (by decide) (by decide) rfl⟩

/-- Three standard slots and one bulk slot: the standard pool rounds to four and hands out
index 3, the bulk pool hands out index 3 as well, and both leases resolve to the bulk slot. -/
theorem rounded_pool_shares_index : ∃ pool, SplitAssocPool.init 3 1 = some pool ∧
    (run step ⟨pool, []⟩ [.acquire false 3, .acquire true 0]).held =
      [⟨3, true, 0⟩, ⟨3, false, 3⟩] ∧
    (run step ⟨pool, []⟩ [.acquire false 3, .acquire true 0]).pool.lock 3 = some (true, 0) :=
  ⟨_, rfl, by decide +kernel, by decide +kernel⟩

end SplitUse

end BcpFlux.Pool
