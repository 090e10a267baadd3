import BcpFlux.Library.Total
import Mathlib.Algebra.Group.Pi.Lemmas

/-! # A ledger of leases

Slots of several pools are leased and given back.  The ledger is balanced when the leases
of each pool are exactly what the holders hold, counted with multiplicity, and no slot was
ever given back to a pool that had not leased it.
-/

namespace BcpFlux.Library
open Function

section Contents
variable {α β γ : Type*}

def contents (g : α → Multiset γ) (n : ℕ) (ring : ℕ → α) : Multiset γ :=
  ∑ i ∈ Finset.range n, g (ring i)

variable (g : α → Multiset γ) (ring : ℕ → α)

theorem contents_eq_flatMap (f : α → List γ) (n : ℕ) :
    contents (fun a => (f a : Multiset γ)) n ring =
      ((List.range n).flatMap fun i => f (ring i) : List γ) := by
  induction n with
  | zero => rfl
  | succ n ih =>
    have hsucc : contents (fun a => (f a : Multiset γ)) (n + 1) ring =
        contents (fun a => (f a : Multiset γ)) n ring + ↑(f (ring n)) := total_succ _ _ n
    rw [hsucc, ih, List.range_succ, List.flatMap_append, ← Multiset.coe_add]
    simp

theorem contents_put {cap : ℕ} (hcap : IsPow2 cap) (n : ℕ) (v : α) :
    contents g cap (put cap ring n v) + g (ring (slot cap n)) = contents g cap ring + g v :=
  total_put g ring hcap n v

theorem contents_scan (f : α → β → α × β) (back : β → Multiset γ)
    (hturn : ∀ e b, g (f e b).1 + back (f e b).2 = g e + back b) (n : ℕ) (acc : β) :
    contents g n (scan f n ring acc).1 + back (scan f n ring acc).2 =
      contents g n ring + back acc :=
  total_scan g ring f back hturn n acc

end Contents

/-- The leases of every pool, and how often a slot came back that was not out. -/
structure Ledger (κ ι : Type*) where
  leased : κ → Finset ι
  faults : ℕ

namespace Ledger
variable {κ ι : Type*} [DecidableEq κ] [DecidableEq ι]

def acquire (l : Ledger κ ι) (pool : κ) (i : ι) : Ledger κ ι :=
  { l with leased := update l.leased pool (insert i (l.leased pool)) }

def release (l : Ledger κ ι) (pool : κ) (i : ι) : Ledger κ ι :=
  if i ∈ l.leased pool
  then { l with leased := update l.leased pool ((l.leased pool).erase i) }
  else { l with faults := l.faults + 1 }

def releaseAll (l : Ledger κ ι) (pool : κ) (slots : List ι) : Ledger κ ι :=
  slots.foldl (fun l i => l.release pool i) l

/-- The leases are what is held, and nothing came back twice or to the wrong pool. -/
structure Balanced (l : Ledger κ ι) (held : κ → Multiset ι) : Prop where
  leases : ∀ pool, (l.leased pool).val = held pool
  sound : l.faults = 0

variable {l : Ledger κ ι} {held held' : κ → Multiset ι} {pool : κ} {i : ι}

omit [DecidableEq κ] [DecidableEq ι] in
theorem Balanced.mem_leased (h : l.Balanced held) : i ∈ l.leased pool ↔ i ∈ held pool := by
  rw [← h.leases pool, Finset.mem_val]

omit [DecidableEq κ] in
theorem Balanced.count (h : l.Balanced held) (hi : i ∈ l.leased pool) :
    (held pool).count i = 1 := by
  rw [← h.leases pool]
  exact Multiset.count_eq_one_of_mem (l.leased pool).nodup hi

theorem Balanced.acquire (h : l.Balanced held) (hfree : i ∉ l.leased pool) :
    (l.acquire pool i).Balanced (held + Pi.single pool {i}) where
  leases := by
    intro q
    by_cases hq : q = pool
    · subst hq
      simp only [Ledger.acquire, update_self, Pi.add_apply, Pi.single_eq_same]
      rw [Finset.insert_val_of_notMem hfree, h.leases q, ← Multiset.singleton_add, add_comm]
    · simp [Ledger.acquire, hq, h.leases q]
  sound := h.sound

theorem Balanced.release (h : l.Balanced (held + Pi.single pool {i})) :
    (l.release pool i).Balanced held := by
  have hmem : i ∈ l.leased pool := by
    rw [h.mem_leased]
    simp
  rw [Ledger.release, if_pos hmem]
  constructor
  · intro q
    by_cases hq : q = pool
    · subst hq
      have hleases := h.leases q
      simp only [Pi.add_apply, Pi.single_eq_same] at hleases
      simp only [update_self, Finset.erase_val, hleases]
      rw [add_comm, Multiset.singleton_add, Multiset.erase_cons_head]
    · have hleases := h.leases q
      simpa [hq] using hleases
  · exact h.sound

theorem Balanced.releaseAll {slots : List ι} (h : l.Balanced (held + Pi.single pool ↑slots)) :
    (l.releaseAll pool slots).Balanced held := by
  induction slots generalizing l with
  | nil => simpa [Ledger.releaseAll] using h
  | cons i rest ih =>
    have hsplit : held + Pi.single pool (↑(i :: rest) : Multiset ι) =
        held + Pi.single pool ↑rest + Pi.single pool {i} := by
      rw [← Multiset.cons_coe, ← Multiset.singleton_add, Pi.single_add]
      abel
    rw [hsplit] at h
    exact ih h.release

end Ledger

end BcpFlux.Library
