import BcpFlux.Library.Ring
import Mathlib.Algebra.BigOperators.Group.Finset.Piecewise
import Mathlib.Tactic.Abel

/-! # Totals over rings and listed slots

What the cells of a ring, or the slots a directory lists, amount to together.  Amounts are
of any commutative monoid.  One write exchanges one summand, and a scan that moves what it
takes out of a cell into its accumulator leaves the total of both alone.
-/

namespace BcpFlux.Library
open Function

section Ring
variable {α β M : Type*} [AddCommMonoid M]

def total (g : α → M) (n : ℕ) (ring : ℕ → α) : M := ∑ i ∈ Finset.range n, g (ring i)

variable (g : α → M) (ring : ℕ → α)

theorem total_succ (n : ℕ) : total g (n + 1) ring = total g n ring + g (ring n) :=
  Finset.sum_range_succ _ n

theorem total_congr {g : α → M} {ring ring' : ℕ → α} {n : ℕ}
    (h : ∀ i < n, g (ring' i) = g (ring i)) : total g n ring' = total g n ring :=
  Finset.sum_congr rfl fun i hi => h i (Finset.mem_range.mp hi)

theorem total_update {n i : ℕ} (hi : i < n) (v : α) :
    total g n (update ring i v) + g (ring i) = total g n ring + g v := by
  have hmem : i ∈ Finset.range n := Finset.mem_range.mpr hi
  have hrest : ∑ j ∈ (Finset.range n).erase i, g (update ring i v j) =
      ∑ j ∈ (Finset.range n).erase i, g (ring j) := by
    apply Finset.sum_congr rfl
    intro j hj
    rw [update_of_ne (Finset.ne_of_mem_erase hj)]
  rw [total, total, ← Finset.add_sum_erase _ _ hmem, hrest,
    ← Finset.add_sum_erase (Finset.range n) (fun j => g (ring j)) hmem, update_self]
  abel

theorem total_put {cap : ℕ} (hcap : IsPow2 cap) (n : ℕ) (v : α) :
    total g cap (put cap ring n v) + g (ring (slot cap n)) = total g cap ring + g v :=
  total_update g ring (hcap.slot_lt n) v

/-- A scan that moves what it takes out of a cell into its accumulator loses nothing. -/
theorem total_scan (f : α → β → α × β) (back : β → M)
    (hturn : ∀ e b, g (f e b).1 + back (f e b).2 = g e + back b) (n : ℕ) (acc : β) :
    total g n (scan f n ring acc).1 + back (scan f n ring acc).2 =
      total g n ring + back acc := by
  induction n with
  | zero => rfl
  | succ n ih =>
    have hcell : (scan f n ring acc).1 n = ring n := by simp [scan_cell]
    have hbelow : total g n (scan f (n + 1) ring acc).1 = total g n (scan f n ring acc).1 := by
      apply total_congr
      intro i hi
      simp only [scan, update_of_ne (Nat.ne_of_lt hi)]
    have hturn' := hturn (ring n) (scan f n ring acc).2
    rw [total_succ, hbelow, total_succ]
    simp only [scan, hcell, update_self]
    calc total g n (scan f n ring acc).1 + g (f (ring n) (scan f n ring acc).2).1 +
          back (f (ring n) (scan f n ring acc).2).2
        = total g n (scan f n ring acc).1 + (g (ring n) + back (scan f n ring acc).2) := by
          rw [add_assoc, hturn']
      _ = total g n (scan f n ring acc).1 + back (scan f n ring acc).2 + g (ring n) := by abel
      _ = total g n ring + g (ring n) + back acc := by rw [ih]; abel

end Ring

section Queues
variable {α M : Type*} [AddCancelCommMonoid M] {g : List α → M} {queues : ℕ → List α} {n i : ℕ}

theorem total_append (happend : ∀ l l', g (l ++ l') = g l + g l') (hi : i < n) (more : List α) :
    total g n (update queues i (queues i ++ more)) = total g n queues + g more := by
  have hupdate := total_update g queues hi (queues i ++ more)
  rw [happend] at hupdate
  apply add_right_cancel (b := g (queues i))
  rw [hupdate]
  abel

theorem total_tail {x : α} {rest : List α} {c : M} (hi : i < n) (hhead : queues i = x :: rest)
    (hcons : g (x :: rest) = g rest + c) :
    total g n (update queues i rest) + c = total g n queues := by
  have hupdate := total_update g queues hi rest
  rw [hhead, hcons] at hupdate
  apply add_right_cancel (b := g rest)
  rw [← hupdate]
  abel

end Queues

section Listed
variable {α κ M : Type*} [AddCommMonoid M]

def listed (key : α → κ) (f : κ → M) (l : List α) : M := (l.map fun x => f (key x)).sum

variable {key : α → κ} {f : κ → M} {l : List α} {k : κ}

theorem listed_congr {f' : κ → M} (h : ∀ x ∈ l, f' (key x) = f (key x)) :
    listed key f' l = listed key f l := by
  rw [listed, listed, List.map_congr_left h]

theorem listed_cons (x : α) : listed key f (x :: l) = f (key x) + listed key f l := List.sum_cons

theorem listed_induction {P : M → Prop} (hzero : P 0) (hadd : ∀ x y, P x → P y → P (x + y))
    (h : ∀ x ∈ l, P (f (key x))) : P (listed key f l) := by
  induction l with
  | nil => exact hzero
  | cons x l ih =>
    exact hadd _ _ (h x List.mem_cons_self) (ih fun y hy => h y (List.mem_cons_of_mem x hy))

variable [DecidableEq κ]

theorem listed_update_of_notMem (h : k ∉ l.map key) (v : M) :
    listed key (update f k v) l = listed key f l := by
  apply listed_congr
  intro x hx
  rw [update_of_ne]
  rintro rfl
  exact h (List.mem_map_of_mem hx)

theorem listed_update (hnodup : (l.map key).Nodup) (hk : k ∈ l.map key) (v : M) :
    listed key (update f k v) l + f k = listed key f l + v := by
  induction l with
  | nil => cases hk
  | cons x l ih =>
    obtain ⟨hx, hnodup⟩ := List.nodup_cons.mp hnodup
    rw [listed_cons, listed_cons]
    rcases List.mem_cons.mp hk with rfl | hk
    · rw [update_self, listed_update_of_notMem hx]
      abel
    · have hne : key x ≠ k := fun heq => hx (heq ▸ hk)
      rw [update_of_ne hne, add_assoc, ih hnodup hk]
      abel

theorem listed_filter (hk : f k = 0) :
    listed key f (l.filter fun x => key x ≠ k) = listed key f l := by
  induction l with
  | nil => rfl
  | cons x l ih =>
    by_cases hhead : key x = k
    · rw [List.filter_cons_of_neg (by simpa using hhead), ih, listed_cons, hhead, hk, zero_add]
    · rw [List.filter_cons_of_pos (by simpa using hhead), listed_cons, listed_cons, ih]

theorem listed_eraseP (hnodup : (l.map key).Nodup) (hk : k ∈ l.map key) :
    listed key f (l.eraseP fun x => key x = k) + f k = listed key f l := by
  induction l with
  | nil => cases hk
  | cons x l ih =>
    obtain ⟨hx, hnodup⟩ := List.nodup_cons.mp hnodup
    by_cases hhead : key x = k
    · rw [List.eraseP_cons_of_pos (by simpa using hhead), ← hhead, listed_cons, add_comm]
    · have hk : k ∈ l.map key := (List.mem_cons.mp hk).resolve_left fun heq => hhead heq.symm
      rw [List.eraseP_cons_of_neg (by simpa using hhead), listed_cons, listed_cons, add_assoc,
        ih hnodup hk]

omit [DecidableEq κ] in
theorem listed_perm {l' : List α} (h : l.Perm l') : listed key f l = listed key f l' :=
  (h.map _).sum_eq

omit [DecidableEq κ] in
theorem listed_concat (x : α) : listed key f (l ++ [x]) = listed key f l + f (key x) := by
  rw [listed, List.map_append, List.sum_append, List.map_singleton, List.sum_singleton]
  rfl

end Listed

end BcpFlux.Library
