import Mathlib.Algebra.Order.Ring.Nat

/-! # Token buckets with integer refills

A bucket earns `num / den` tokens a tick and holds at most `cap`.  A refill adds a whole number
of tokens for the time since its mark and moves the mark, so what it adds is paid for by the
distance the mark travels.  Summed over a run the rounding never adds up.
-/

namespace BcpFlux.Library

/-- The tokens, the mark up to which time has been paid out, and what was spent so far. -/
structure Bucket where
  tokens : ℕ
  filledAt : ℕ
  spent : ℕ

namespace Bucket
variable (num den cap : ℕ)

/-- What a refill may do: move the mark forward and add no more than the way is worth. -/
structure Refills (b b' : Bucket) : Prop where
  later : b.filledAt ≤ b'.filledAt
  earned : den * b'.tokens + num * b.filledAt ≤ den * b.tokens + num * b'.filledAt
  spent : b'.spent = b.spent

variable {num den cap} {b b' : Bucket}

theorem Refills.refl (b : Bucket) : Refills num den b b := ⟨le_rfl, le_rfl, rfl⟩

theorem Refills.of_mark (hlater : b.filledAt ≤ b'.filledAt) (htokens : b'.tokens = b.tokens)
    (hspent : b'.spent = b.spent) : Refills num den b b' where
  later := hlater
  earned := by
    rw [htokens]
    exact Nat.add_le_add_left (Nat.mul_le_mul_left num hlater) _
  spent := hspent

theorem Refills.of_gain {now gained : ℕ} (hlater : b.filledAt ≤ now)
    (hgain : gained ≤ num * (now - b.filledAt) / den) (hmark : b'.filledAt = now)
    (htokens : b'.tokens ≤ b.tokens + gained) (hspent : b'.spent = b.spent) :
    Refills num den b b' where
  later := hmark ▸ hlater
  earned := by
    have hworth : den * gained ≤ num * (now - b.filledAt) :=
      (Nat.mul_le_mul_left den hgain).trans (Nat.mul_div_le _ den)
    have hway : num * now = num * b.filledAt + num * (now - b.filledAt) := by
      rw [← Nat.mul_add, Nat.add_sub_cancel' hlater]
    have hbound : den * b'.tokens ≤ den * b.tokens + den * gained := by
      rw [← Nat.mul_add]
      exact Nat.mul_le_mul_left den htokens
    rw [hmark]
    omega
  spent := hspent

/-- Everything spent and everything left is covered by a full bucket and the way of the mark
from `start`. -/
def Covered (num den cap start : ℕ) (b : Bucket) : Prop :=
  den * (b.spent + b.tokens) + num * start ≤ den * cap + num * b.filledAt

variable {start : ℕ}

theorem Covered.refill (h : b.Covered num den cap start) (hr : Refills num den b b') :
    b'.Covered num den cap start := by
  unfold Covered at *
  have hearned := hr.earned
  rw [Nat.mul_add] at h ⊢
  rw [hr.spent]
  omega

theorem Covered.spend (h : b.Covered num den cap start) {size : ℕ} (hsize : size ≤ b.tokens) :
    (⟨b.tokens - size, b.filledAt, b.spent + size⟩ : Bucket).Covered num den cap start := by
  have hsum : b.spent + size + (b.tokens - size) = b.spent + b.tokens := by omega
  change den * (b.spent + size + (b.tokens - size)) + num * start ≤ _
  rw [hsum]
  exact h

/-- A bucket that spent nothing is covered from the mark, and from up to one token later if
it is not full. -/
theorem covered_start (hspent : b.spent = 0) (hcap : b.tokens ≤ cap)
    (hslack : start ≤ b.filledAt ∨ num * (start - b.filledAt) ≤ den * (cap - b.tokens)) :
    b.Covered num den cap start := by
  have hroom : den * cap = den * b.tokens + den * (cap - b.tokens) := by
    rw [← Nat.mul_add, Nat.add_sub_cancel' hcap]
  unfold Covered
  rw [hspent, Nat.zero_add]
  rcases hslack with hle | hslack
  · have := Nat.mul_le_mul_left num hle
    omega
  · rcases Nat.le_total start b.filledAt with hle | hle
    · have := Nat.mul_le_mul_left num hle
      omega
    · have hway : num * start = num * b.filledAt + num * (start - b.filledAt) := by
        rw [← Nat.mul_add, Nat.add_sub_cancel' hle]
      omega

theorem Covered.spent_le (h : b.Covered num den cap start) {last : ℕ} (hlast : b.filledAt ≤ last) :
    den * b.spent ≤ den * cap + num * (last - start) := by
  unfold Covered at h
  rw [Nat.mul_add] at h
  rcases Nat.le_total start last with hle | hle
  · have hway : num * last = num * start + num * (last - start) := by
      rw [← Nat.mul_add, Nat.add_sub_cancel' hle]
    have := Nat.mul_le_mul_left num hlast
    omega
  · have := Nat.mul_le_mul_left num (hlast.trans hle)
    omega

end Bucket

end BcpFlux.Library
