import Mathlib.Algebra.Group.Nat.Defs
import Mathlib.Tactic.Common

/-! # Bisection for the last point of an initial segment

The search keeps `low` inside the segment and halves the rest.  The predicate is only
asked between the two bounds, so it has to describe the segment there and nowhere else.
-/

namespace BcpFlux.Library

/-- Search of the last point in `[low, high]` where `p` holds; `fuel` halvings. -/
def bisect (p : ℕ → Bool) : ℕ → ℕ → ℕ → ℕ
  | 0, low, _ => low
  | fuel + 1, low, high =>
    if low < high then
      let mid := low + (high - low + 1) / 2
      if p mid then bisect p fuel mid high else bisect p fuel low (mid - 1)
    else low

theorem bisect_below {p : ℕ → Bool} {low high : ℕ} (fuel : ℕ) (hlt : low < high)
    (hout : p (low + (high - low + 1) / 2) = false) :
    bisect p (fuel + 1) low high = bisect p fuel low (low + (high - low + 1) / 2 - 1) := by
  rw [bisect, if_pos hlt]
  dsimp only
  rw [hout]
  rfl

theorem bisect_eq {p : ℕ → Bool} {last : ℕ} (fuel low high : ℕ) (hlow : low ≤ last)
    (hhigh : last ≤ high) (hp : ∀ m, low < m → m ≤ high → (p m = true ↔ m ≤ last))
    (hfuel : high - low < 2 ^ fuel) : bisect p fuel low high = last := by
  induction fuel generalizing low high with
  | zero =>
    rw [bisect]
    omega
  | succ fuel ih =>
    rw [bisect]
    split_ifs with hlt
    · have hmid : low < low + (high - low + 1) / 2 ∧ low + (high - low + 1) / 2 ≤ high := by omega
      have hsegment := hp _ hmid.1 hmid.2
      dsimp only
      split_ifs with hin
      · apply ih
        · exact hsegment.mp hin
        · exact hhigh
        · intro m hm
          exact hp m (by omega)
        · omega
      · have hbelow : last < low + (high - low + 1) / 2 := Nat.lt_of_not_le (mt hsegment.mpr hin)
        apply ih
        · exact hlow
        · omega
        · intro m hm hm'
          exact hp m hm (by omega)
        · omega
    · omega

end BcpFlux.Library
