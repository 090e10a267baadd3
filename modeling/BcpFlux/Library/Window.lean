import BcpFlux.Library.Ring

/-! # A window of marks over a ring of bits

One bit a cell, kept for the `cap` sequences from a cursor `lo` on.  A set bit stands
for the one sequence of the window that selects its cell, so what a mark promises holds
of that sequence, as long as marks are only ever set inside the window.
-/

namespace BcpFlux.Library

/-- Everything below the cursor and everything marked in the window satisfies `P`. -/
structure Marks (cap : ℕ) (P : ℕ → Prop) (ring : ℕ → Bool) (lo : ℕ) : Prop where
  below : ∀ n < lo, P n
  marked : ∀ n, lo ≤ n → n < lo + cap → ring (slot cap n) = true → P n

/-- Move the cursor over marked sequences, at most `left` of them, clearing each mark. -/
def walk (cap : ℕ) : ℕ → (ℕ → Bool) → ℕ → (ℕ → Bool) × ℕ
  | 0, ring, lo => (ring, lo)
  | left + 1, ring, lo =>
    if ring (slot cap lo) then walk cap left (put cap ring lo false) (lo + 1) else (ring, lo)

section Window
variable {cap lo : ℕ} {P Q : ℕ → Prop} {ring : ℕ → Bool}

theorem Marks.mono (h : Marks cap P ring lo) (hPQ : ∀ n, P n → Q n) : Marks cap Q ring lo where
  below n hn := hPQ n (h.below n hn)
  marked n hle hlt hbit := hPQ n (h.marked n hle hlt hbit)

theorem Marks.empty (hP : ∀ n < lo, P n) : Marks cap P (fun _ => false) lo where
  below := hP
  marked _ _ _ hbit := absurd hbit Bool.false_ne_true

theorem Marks.mark (hcap : IsPow2 cap) (h : Marks cap P ring lo) {n : ℕ} (hle : lo ≤ n)
    (hlt : n < lo + cap) (hn : P n) : Marks cap P (put cap ring n true) lo where
  below := h.below
  marked m hm hm' hbit := by
    by_cases hslot : slot cap m = slot cap n
    · -- inside one window two sequences of one cell are the same sequence
      rcases Nat.le_total m n with hmn | hnm
      · rwa [hcap.slot_inj hmn (by omega) hslot]
      · rwa [← hcap.slot_inj hnm (by omega) hslot.symm]
    · rw [put_of_ne ring true hslot] at hbit
      exact h.marked m hm hm' hbit

theorem Marks.advance (hcap : IsPow2 cap) (h : Marks cap P ring lo)
    (hbit : ring (slot cap lo) = true) : Marks cap P (put cap ring lo false) (lo + 1) where
  below n hn := by
    rcases Nat.lt_succ_iff_lt_or_eq.mp hn with hlt | rfl
    · exact h.below n hlt
    · exact h.marked n le_rfl (by have := hcap.pos; omega) hbit
  marked n hle hlt hn := by
    by_cases hslot : slot cap n = slot cap lo
    · rw [hslot, put_self] at hn
      exact absurd hn Bool.false_ne_true
    · rw [put_of_ne ring false hslot] at hn
      by_cases htop : n = lo + cap
      · apply absurd _ hslot
        rw [htop, hcap.slot_eq, hcap.slot_eq, Nat.add_mod_right]
      · exact h.marked n (by omega) (by omega) hn

theorem Marks.walk (hcap : IsPow2 cap) (h : Marks cap P ring lo) (left : ℕ) :
    Marks cap P (walk cap left ring lo).1 (walk cap left ring lo).2 := by
  induction left generalizing ring lo with
  | zero => exact h
  | succ left ih =>
    rw [Library.walk]
    split
    · next hbit => exact ih (h.advance hcap hbit)
    · exact h

theorem le_walk (cap left : ℕ) (ring : ℕ → Bool) (lo : ℕ) : lo ≤ (walk cap left ring lo).2 := by
  induction left generalizing ring lo with
  | zero => exact le_rfl
  | succ left ih =>
    rw [walk]
    split
    · exact le_trans (Nat.le_succ lo) (ih _ _)
    · exact le_rfl

theorem walk_le (cap left : ℕ) (ring : ℕ → Bool) (lo : ℕ) :
    (walk cap left ring lo).2 ≤ lo + left := by
  induction left generalizing ring lo with
  | zero => exact le_rfl
  | succ left ih =>
    rw [walk]
    split
    · exact le_trans (ih _ _) (by omega)
    · exact Nat.le_add_right _ _

end Window

end BcpFlux.Library
