import Mathlib.Data.Nat.Bitwise
import Mathlib.Data.Finset.Card
import Mathlib.Tactic.Linarith

/-! # Rings indexed by masked sequence numbers

A ring of power-of-two capacity stores the value for sequence `n` in cell
`n &&& (cap - 1)`.  Two sequences closer together than the capacity never share
a cell, which is the only fact the sliding windows built on such rings need.
-/

namespace BcpFlux.Library
open Function

def slot (cap n : ℕ) : ℕ := n &&& (cap - 1)

/-- Capacities for which masking is a remainder. -/
def IsPow2 (cap : ℕ) : Prop := ∃ k, cap = 2 ^ k

theorem IsPow2.pos {cap : ℕ} (h : IsPow2 cap) : 0 < cap := by
  obtain ⟨k, rfl⟩ := h
  exact Nat.two_pow_pos k

theorem IsPow2.slot_eq {cap : ℕ} (h : IsPow2 cap) (n : ℕ) : slot cap n = n % cap := by
  obtain ⟨k, rfl⟩ := h
  exact Nat.and_two_pow_sub_one_eq_mod n k

theorem IsPow2.slot_lt {cap : ℕ} (h : IsPow2 cap) (n : ℕ) : slot cap n < cap := by
  rw [h.slot_eq]
  exact Nat.mod_lt n h.pos

theorem mod_inj_of_window {cap a b : ℕ} (hle : a ≤ b) (hlt : b < a + cap)
    (hmod : a % cap = b % cap) : a = b := by
  have hdvd : cap ∣ b - a := Nat.dvd_of_mod_eq_zero (Nat.sub_mod_eq_zero_of_mod_eq hmod.symm)
  have hzero : b - a = 0 := Nat.eq_zero_of_dvd_of_lt hdvd (by omega)
  omega

theorem IsPow2.slot_inj {cap a b : ℕ} (h : IsPow2 cap) (hle : a ≤ b) (hlt : b < a + cap)
    (heq : slot cap a = slot cap b) : a = b := by
  rw [h.slot_eq, h.slot_eq] at heq
  exact mod_inj_of_window hle hlt heq

section Cells
variable {α : Type*}

theorem all_update {P : α → Prop} {ring : ℕ → α} {v : α} (hv : P v) (h : ∀ i, P (ring i))
    (n i : ℕ) : P (update ring n v i) := by
  rw [update_apply]
  split
  · exact hv
  · exact h i

def put (cap : ℕ) (ring : ℕ → α) (n : ℕ) (v : α) : ℕ → α :=
  update ring (slot cap n) v

@[simp] theorem put_self (cap : ℕ) (ring : ℕ → α) (n : ℕ) (v : α) :
    put cap ring n v (slot cap n) = v := by
  simp [put]

theorem put_of_ne {cap n i : ℕ} (ring : ℕ → α) (v : α) (h : i ≠ slot cap n) :
    put cap ring n v i = ring i := by
  simp [put, h]

theorem put_apply (cap : ℕ) (ring : ℕ → α) (n : ℕ) (v : α) (i : ℕ) :
    put cap ring n v i = if i = slot cap n then v else ring i := by
  simp [put, update_apply]

/-- Apply `f` to every cell of the ring, lowest index first, threading an accumulator. -/
def scan {β : Type*} (f : α → β → α × β) : ℕ → (ℕ → α) → β → (ℕ → α) × β
  | 0, ring, acc => (ring, acc)
  | n + 1, ring, acc =>
    let r := scan f n ring acc
    let c := f (r.1 n) r.2
    (update r.1 n c.1, c.2)

/-- Write `v` into the `count` consecutive cells from sequence `lo`. -/
def fill (cap : ℕ) (v : α) (lo : ℕ) : ℕ → (ℕ → α) → (ℕ → α)
  | 0, ring => ring
  | n + 1, ring => put cap (fill cap v lo n ring) (lo + n) v

theorem fill_apply (cap : ℕ) (v : α) (lo count : ℕ) (ring : ℕ → α) (i : ℕ) :
    fill cap v lo count ring i = if ∃ k < count, i = slot cap (lo + k) then v else ring i := by
  induction count with
  | zero => simp [fill]
  | succ n ih =>
    rw [fill, put_apply, ih]
    by_cases hn : i = slot cap (lo + n)
    · rw [if_pos hn, if_pos ⟨n, by omega, hn⟩]
    · have hiff : (∃ k < n + 1, i = slot cap (lo + k)) ↔ ∃ k < n, i = slot cap (lo + k) := by
        constructor
        · rintro ⟨k, hk, rfl⟩
          refine ⟨k, ?_, rfl⟩
          rcases Nat.lt_succ_iff_lt_or_eq.mp hk with h | rfl
          · exact h
          · exact absurd rfl hn
        · rintro ⟨k, hk, rfl⟩
          exact ⟨k, by omega, rfl⟩
      rw [if_neg hn]
      simp only [hiff]

section Scan
variable {β : Type*} (f : α → β → α × β) (ring : ℕ → α) (acc : β)

/-- A scan visits each cell once, in the state the cells below it left behind. -/
theorem scan_cell (n i : ℕ) :
    (scan f n ring acc).1 i =
      if i < n then (f (ring i) (scan f i ring acc).2).1 else ring i := by
  induction n generalizing i with
  | zero => simp [scan]
  | succ n ih =>
    have hn : (scan f n ring acc).1 n = ring n := by simp [ih n]
    simp only [scan, hn, update_apply]
    rcases lt_trichotomy i n with h | rfl | h
    · rw [if_neg (by omega), ih, if_pos h, if_pos (by omega)]
    · simp
    · rw [if_neg (by omega), ih, if_neg (by omega), if_neg (by omega)]

/-- Induction rule for what a scan accumulates. -/
theorem scan_acc {P : ℕ → β → Prop} (n : ℕ) (h0 : P 0 acc)
    (hstep : ∀ i < n, P i (scan f i ring acc).2 →
      P (i + 1) (f (ring i) (scan f i ring acc).2).2) :
    P n (scan f n ring acc).2 := by
  induction n with
  | zero => exact h0
  | succ n ih =>
    have hn : (scan f n ring acc).1 n = ring n := by simp [scan_cell]
    simp only [scan, hn]
    exact hstep n (by omega) (ih fun i hi => hstep i (by omega))

/-- The same rule where `T` describes the turns: each leaves the cell the scan ends with. -/
theorem scan_turns {T : α → β → α × β → Prop} (hT : ∀ e b, T e b (f e b)) {P : ℕ → β → Prop} {n : ℕ}
    (h0 : P 0 acc)
    (hturn : ∀ i < n, ∀ b r, T (ring i) b r → (scan f n ring acc).1 i = r.1 → P i b → P (i + 1) r.2) :
    P n (scan f n ring acc).2 :=
  scan_acc f ring acc n h0 fun i hi =>
    hturn i hi _ _ (hT _ _) (by rw [scan_cell, if_pos hi])

theorem scan_id {n : ℕ} (hid : ∀ i < n, ∀ b, f (ring i) b = (ring i, b)) :
    scan f n ring acc = (ring, acc) := by
  induction n with
  | zero => rfl
  | succ n ih =>
    rw [scan, ih fun i hi => hid i (by omega)]
    simp only [hid n (by omega), update_eq_self]

theorem scan_single {n j : ℕ} (hj : j < n) (hid : ∀ i < n, i ≠ j → ∀ b, f (ring i) b = (ring i, b)) :
    scan f n ring acc = (update ring j (f (ring j) acc).1, (f (ring j) acc).2) := by
  induction n with
  | zero => omega
  | succ n ih =>
    rcases Nat.lt_succ_iff_lt_or_eq.mp hj with hlt | rfl
    · rw [scan, ih hlt fun i hi => hid i (by omega)]
      have hn : update ring j (f (ring j) acc).1 n = ring n :=
        update_of_ne (by omega) _ _
      simp only [hn, hid n (by omega) (by omega)]
      rw [← hn, update_eq_self]
    · rw [scan, scan_id f ring acc fun i hi => hid i (by omega) (by omega)]

end Scan

end Cells

end BcpFlux.Library
