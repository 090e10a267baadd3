import BcpFlux.Basic
import BcpFlux.Library.Bisect
import BcpFlux.Wire.Packet
import Mathlib.Tactic.Linarith
import Mathlib.Tactic.Ring

/-! # The growth curve of the congestion controller

`CubicWindow` in the arithmetic of the source: unsigned words wrap, and a signed product
that leaves 64 bits has no value.  The clamp in front of the cube is meant to keep it
inside.  It is set at 2000 seconds, and the cube fits up to 267 seconds past the point
where the curve is back at the window it was cut from.
-/

namespace BcpFlux.Peer
open Library Wire

def ccCubicCScaled : ℕ := 40
def ccCubicCScale : ℕ := 100
def ccLossRetainPercent : ℕ := 70
def offsetLimit : ℤ := 2000000

def u64 (n : ℕ) : ℕ := n % 2 ^ 64

/-- A 64-bit signed result, which has no value when it does not fit. -/
def int64 (x : ℤ) : Option ℤ := if -2 ^ 63 ≤ x ∧ x < 2 ^ 63 then some x else none

/-- `CubeRoot`: the range of the search holds the root of every 64-bit word. -/
def cubeRoot (n : ℕ) : ℕ :=
  u32 (bisect (fun mid => decide (u64 (u64 (mid * mid) * mid) ≤ n)) 23 0 (2 ^ 22))

/-- `C` in bytes per second cubed. -/
def cubicBytes : ℕ := u64 (ccCubicCScaled * maxWirePacketSize) / ccCubicCScale

/-- How long the curve takes back to the window it was cut from, in milliseconds. -/
def cubicMilli (wMaxBytes : ℕ) : ℕ :=
  let reduction := u64 (wMaxBytes * (100 - ccLossRetainPercent)) / 100
  cubeRoot (u64 (reduction * 1000000000) / cubicBytes)

/-- `C * bounded^3 / 10^9`, each product a signed word. -/
def cubicGrowth (bounded : ℤ) : Option ℤ := do
  let first ← int64 (cubicBytes * bounded)
  let second ← int64 (first * bounded)
  let third ← int64 (second * bounded)
  return third.tdiv 1000000000

def cubicWindow (wMaxBytes elapsedMicros : ℕ) : Option ℕ :=
  if cubicBytes = 0 ∨ wMaxBytes = 0 then some wMaxBytes
  else do
    let offset ← int64 ((elapsedMicros / 1000 : ℕ) - cubicMilli wMaxBytes)
    let bounded := if offsetLimit < offset then offsetLimit
      else if offset < -offsetLimit then -offsetLimit else offset
    let growth ← cubicGrowth bounded
    let window ← int64 (wMaxBytes + growth)
    return if window < 0 then 0 else window.toNat

/-! ## The curve over the integers -/

def floorCbrt (n : ℕ) : ℕ := Nat.findGreatest (fun r => r ^ 3 ≤ n) n

def inflection (wMaxBytes : ℕ) : ℕ := floorCbrt (wMaxBytes * 3 / 10 * 10 ^ 9 / 480)

def cubicOffset (wMaxBytes elapsedMicros : ℕ) : ℤ :=
  (elapsedMicros / 1000 : ℕ) - (inflection wMaxBytes : ℕ)

def clampOffset (offset : ℤ) : ℤ := max (-2000000) (min offset 2000000)

def cubicSpec (wMaxBytes elapsedMicros : ℕ) : ℕ :=
  let growth := (480 * clampOffset (cubicOffset wMaxBytes elapsedMicros) ^ 3).tdiv (10 ^ 9)
  (max 0 ((wMaxBytes : ℤ) + growth)).toNat

def cubeLimit : ℤ := 267844

/-- The cube stays inside the word; without an anchor there is no curve, and the integer
formula stays at zero for the first 127 milliseconds. -/
def CubeFits (wMaxBytes elapsedMicros : ℕ) : Prop :=
  if wMaxBytes = 0 then elapsedMicros / 1000 ≤ 127
  else cubicOffset wMaxBytes elapsedMicros ≤ cubeLimit

instance (wMaxBytes elapsedMicros : ℕ) : Decidable (CubeFits wMaxBytes elapsedMicros) := by
  unfold CubeFits
  infer_instance

theorem floorCbrt_eq {n r : ℕ} (hle : r ^ 3 ≤ n) (hlt : n < (r + 1) ^ 3) : floorCbrt n = r := by
  have hself : r ≤ r ^ 3 := Nat.le_self_pow (by decide) r
  rw [floorCbrt, Nat.findGreatest_eq_iff]
  refine ⟨hself.trans hle, fun _ => hle, ?_⟩
  intro m hm _ hcube
  have hpow : (r + 1) ^ 3 ≤ m ^ 3 := Nat.pow_le_pow_left hm 3
  omega

theorem floorCbrt_spec (n : ℕ) : floorCbrt n ^ 3 ≤ n ∧ n < (floorCbrt n + 1) ^ 3 := by
  constructor
  · exact Nat.findGreatest_spec (P := fun r => r ^ 3 ≤ n) (Nat.zero_le n) (Nat.zero_le n)
  · by_contra hle
    rw [Nat.not_lt] at hle
    have hbound : floorCbrt n + 1 ≤ n := (Nat.le_self_pow (by decide) _).trans hle
    exact Nat.findGreatest_is_greatest (P := fun r => r ^ 3 ≤ n) (Nat.lt_succ_self _) hbound hle

/-- The root of a word below `2^63` is found: the first probe is the only one whose cube
reaches the top bit, and the cubes of the others do not wrap. -/
theorem cubeRoot_eq {n : ℕ} (hn : n < 2 ^ 63) : cubeRoot n = floorCbrt n := by
  obtain ⟨hle, hlt⟩ := floorCbrt_spec n
  have hroot : floorCbrt n < 2 ^ 21 := by
    by_contra hge
    rw [Nat.not_lt] at hge
    have hpow : (2 ^ 21) ^ 3 ≤ floorCbrt n ^ 3 := Nat.pow_le_pow_left hge 3
    omega
  have hword : ∀ m, m ≤ 2 ^ 21 → u64 (u64 (m * m) * m) = m ^ 3 := by
    intro m hm
    have hsquare : m * m ≤ 2 ^ 21 * 2 ^ 21 := Nat.mul_le_mul hm hm
    have hcube : m * m * m ≤ 2 ^ 21 * 2 ^ 21 * 2 ^ 21 := Nat.mul_le_mul hsquare hm
    have hword : m * m % 2 ^ 64 = m * m := Nat.mod_eq_of_lt (by omega)
    rw [u64, u64, hword, Nat.mod_eq_of_lt (by omega), Nat.pow_succ, Nat.pow_two]
  have hsegment : ∀ m, m ≤ 2 ^ 21 →
      (decide (u64 (u64 (m * m) * m) ≤ n) = true ↔ m ≤ floorCbrt n) := by
    intro m hm
    rw [decide_eq_true_iff, hword m hm]
    constructor
    · intro hcube
      by_contra hgt
      have hpow : (floorCbrt n + 1) ^ 3 ≤ m ^ 3 := Nat.pow_le_pow_left (by omega) 3
      omega
    · intro hm'
      exact (Nat.pow_le_pow_left hm' 3).trans hle
  have hfirst : bisect (fun mid => decide (u64 (u64 (mid * mid) * mid) ≤ n)) 23 0 (2 ^ 22) =
      bisect (fun mid => decide (u64 (u64 (mid * mid) * mid) ≤ n)) 22 0 (2 ^ 21 - 1) := by
    have htop : decide (u64 (u64 (2 ^ 21 * 2 ^ 21) * 2 ^ 21) ≤ n) = false := by
      rw [Bool.eq_false_iff, Ne, hsegment (2 ^ 21) le_rfl]
      omega
    exact bisect_below 22 (by decide) htop
  rw [cubeRoot, hfirst, bisect_eq 22 0 (2 ^ 21 - 1) (Nat.zero_le _) (by omega)
    (fun m _ hm => hsegment m (by omega)) (by decide)]
  exact Nat.mod_eq_of_lt (by omega)

theorem cubicBytes_eq : cubicBytes = 480 := by decide

/-- The time to the inflection is the integer cube root of `3 · wMaxBytes / 10 · 10⁹ / 480`. -/
theorem cubicMilli_eq {wMaxBytes : ℕ} (hw : wMaxBytes < 2 ^ 32) :
    cubicMilli wMaxBytes = inflection wMaxBytes := by
  have hreduction : u64 (wMaxBytes * (100 - ccLossRetainPercent)) / 100 = wMaxBytes * 3 / 10 := by
    have hword : u64 (wMaxBytes * 30) = wMaxBytes * 30 := Nat.mod_eq_of_lt (by omega)
    change u64 (wMaxBytes * 30) / 100 = _
    omega
  have hscaled : u64 (wMaxBytes * 3 / 10 * 1000000000) = wMaxBytes * 3 / 10 * 10 ^ 9 :=
    Nat.mod_eq_of_lt (by omega)
  unfold cubicMilli
  dsimp only
  rw [hreduction, hscaled, cubicBytes_eq, cubeRoot_eq (by omega)]
  rfl

theorem inflection_lt {wMaxBytes : ℕ} (hw : wMaxBytes < 2 ^ 32) : inflection wMaxBytes < 139000 := by
  by_contra hge
  have hroot := (floorCbrt_spec (wMaxBytes * 3 / 10 * 10 ^ 9 / 480)).1
  have hpow : 139000 ^ 3 ≤ floorCbrt (wMaxBytes * 3 / 10 * 10 ^ 9 / 480) ^ 3 :=
    Nat.pow_le_pow_left (Nat.le_of_not_lt hge) 3
  omega

theorem int64_of_fits {x : ℤ} (hlow : -2 ^ 63 ≤ x) (hhigh : x < 2 ^ 63) : int64 x = some x :=
  if_pos ⟨hlow, hhigh⟩

attribute [irreducible] inflection

theorem pow_three_mono {x y : ℤ} (h : x ≤ y) : x ^ 3 ≤ y ^ 3 :=
  (Odd.strictMono_pow (by decide)).monotone h

theorem cubicGrowth_eq {bounded : ℤ} (hlow : -139000 ≤ bounded) (hhigh : bounded ≤ 2000000) :
    cubicGrowth bounded = if bounded ≤ cubeLimit
      then some ((480 * bounded ^ 3).tdiv (10 ^ 9)) else none := by
  have hfirst : int64 (480 * bounded) = some (480 * bounded) :=
    int64_of_fits (by omega) (by omega)
  have hsecond : int64 (480 * bounded * bounded) = some (480 * bounded * bounded) := by
    have hsquare : 0 ≤ bounded * bounded := mul_self_nonneg bounded
    have hbound : bounded * bounded ≤ 2000000 * 2000000 := by nlinarith
    apply int64_of_fits
    · rw [mul_assoc]
      omega
    · rw [mul_assoc]
      omega
  have hcube : 480 * bounded * bounded * bounded = 480 * bounded ^ 3 := by ring
  have hthird : int64 (480 * bounded * bounded * bounded) =
      if bounded ≤ cubeLimit then some (480 * bounded ^ 3) else none := by
    rw [hcube]
    split_ifs with hlimit
    · have hupper : bounded ^ 3 ≤ 267844 ^ 3 := pow_three_mono hlimit
      have hlower : (-139000) ^ 3 ≤ bounded ^ 3 := pow_three_mono hlow
      exact int64_of_fits (by omega) (by omega)
    · have hupper : (267845 : ℤ) ^ 3 ≤ bounded ^ 3 := pow_three_mono (Int.lt_of_not_ge hlimit)
      exact if_neg (by omega)
  rw [cubicGrowth, cubicBytes_eq]
  simp only [Nat.cast_ofNat, hfirst, hsecond, hthird, Option.bind_eq_bind, Option.bind_some,
    Option.pure_def]
  split_ifs <;> rfl

theorem clampOffset_eq (offset : ℤ) :
    (if offsetLimit < offset then offsetLimit
      else if offset < -offsetLimit then -offsetLimit else offset) = clampOffset offset := by
  rw [clampOffset, offsetLimit]
  split_ifs <;> omega

theorem clampOffset_mono {x y : ℤ} (h : x ≤ y) : clampOffset x ≤ clampOffset y :=
  max_le_max le_rfl (min_le_min h le_rfl)

theorem cubicWindow_eq {wMaxBytes elapsedMicros : ℕ} (hw : wMaxBytes < 2 ^ 32)
    (he : elapsedMicros < 2 ^ 64) (hne : wMaxBytes ≠ 0) :
    cubicWindow wMaxBytes elapsedMicros = if cubicOffset wMaxBytes elapsedMicros ≤ cubeLimit
      then some (cubicSpec wMaxBytes elapsedMicros) else none := by
  have hroot := inflection_lt hw
  have hoffset : int64 ((elapsedMicros / 1000 : ℕ) - cubicMilli wMaxBytes) =
      some (cubicOffset wMaxBytes elapsedMicros) := by
    rw [cubicMilli_eq hw]
    exact int64_of_fits (by omega) (by omega)
  have hlow : -139000 ≤ cubicOffset wMaxBytes elapsedMicros := by
    rw [cubicOffset]
    omega
  have hclamp : -139000 ≤ clampOffset (cubicOffset wMaxBytes elapsedMicros) := by
    rw [clampOffset]
    omega
  have hclamp' : clampOffset (cubicOffset wMaxBytes elapsedMicros) ≤ 2000000 := by
    rw [clampOffset]
    omega
  have hlimit : clampOffset (cubicOffset wMaxBytes elapsedMicros) ≤ cubeLimit ↔
      cubicOffset wMaxBytes elapsedMicros ≤ cubeLimit := by
    rw [clampOffset, cubeLimit]
    omega
  have hcurve : ¬ (cubicBytes = 0 ∨ wMaxBytes = 0) := by
    rw [cubicBytes_eq]
    omega
  rw [cubicWindow, if_neg hcurve, hoffset, cubicSpec]
  generalize cubicOffset wMaxBytes elapsedMicros = offset at hclamp hclamp' hlimit ⊢
  rw [Option.bind_eq_bind, Option.bind_some, clampOffset_eq]
  dsimp only
  rw [cubicGrowth_eq hclamp hclamp']
  by_cases hfits : offset ≤ cubeLimit
  · have hupper : clampOffset offset ^ 3 ≤ 267844 ^ 3 := pow_three_mono (hlimit.mpr hfits)
    have hlower : (-139000) ^ 3 ≤ clampOffset offset ^ 3 := pow_three_mono hclamp
    have hgrowth : (480 * clampOffset offset ^ 3).tdiv (10 ^ 9) ≤
        (480 * 267844 ^ 3 : ℤ).tdiv (10 ^ 9) :=
      Int.tdiv_le_tdiv (c := 10 ^ 9) (by decide) (by omega)
    have hmost : (480 * 267844 ^ 3 : ℤ).tdiv (10 ^ 9) < 2 ^ 34 := by decide
    have hgrowth' : -(480 * 139000 ^ 3 / 10 ^ 9) ≤ (480 * clampOffset offset ^ 3).tdiv (10 ^ 9) := by
      have hdiv := Int.tdiv_le_tdiv (a := 480 * (-139000) ^ 3)
        (b := 480 * clampOffset offset ^ 3) (c := 10 ^ 9) (by decide) (by omega)
      exact le_trans (by decide) hdiv
    rw [if_pos hfits, if_pos (hlimit.mpr hfits)]
    rw [Option.bind_some, int64_of_fits (by omega) (by omega), Option.bind_some, Option.pure_def]
    split_ifs with hneg
    · rw [max_eq_left (Int.le_of_lt hneg), Int.toNat_zero]
    · rw [max_eq_right (Int.not_lt.mp hneg)]
  · rw [if_neg hfits, if_neg (mt hlimit.mp hfits)]
    rfl

theorem cubicSpec_mono (wMaxBytes : ℕ) {earlier later : ℕ} (h : earlier ≤ later) :
    cubicSpec wMaxBytes earlier ≤ cubicSpec wMaxBytes later := by
  have hoffset : cubicOffset wMaxBytes earlier ≤ cubicOffset wMaxBytes later := by
    rw [cubicOffset, cubicOffset]
    omega
  have hcube := pow_three_mono (clampOffset_mono hoffset)
  have hgrowth := Int.tdiv_le_tdiv (c := 10 ^ 9) (by decide)
    (mul_le_mul_of_nonneg_left hcube (by decide : (0 : ℤ) ≤ 480))
  exact Int.toNat_le_toNat (max_le_max le_rfl (Int.add_le_add_left hgrowth _))

theorem cubicSpec_zero (elapsedMicros : ℕ) :
    cubicSpec 0 elapsedMicros = 0 ↔ elapsedMicros / 1000 ≤ 127 := by
  have hroot : inflection 0 = 0 := by
    unfold inflection
    exact floorCbrt_eq (by decide) (by decide)
  have hoffset : cubicOffset 0 elapsedMicros = (elapsedMicros / 1000 : ℕ) := by
    rw [cubicOffset, hroot]
    exact Int.sub_zero _
  rw [cubicSpec, hoffset]
  generalize elapsedMicros / 1000 = milli
  constructor
  · intro hzero
    by_contra hlate
    have hclamp : 128 ≤ clampOffset (milli : ℕ) := by
      rw [clampOffset]
      omega
    have hcube : (128 : ℤ) ^ 3 ≤ clampOffset (milli : ℕ) ^ 3 := pow_three_mono hclamp
    have hgrowth := Int.tdiv_le_tdiv (c := 10 ^ 9) (by decide)
      (mul_le_mul_of_nonneg_left hcube (by decide : (0 : ℤ) ≤ 480))
    have hone : (480 * 128 ^ 3 : ℤ).tdiv (10 ^ 9) = 1 := by decide
    omega
  · intro hearly
    have hclamp : clampOffset (milli : ℕ) ≤ 127 := by
      rw [clampOffset]
      omega
    have hcube : clampOffset (milli : ℕ) ^ 3 ≤ (127 : ℤ) ^ 3 := pow_three_mono hclamp
    have hgrowth := Int.tdiv_le_tdiv (c := 10 ^ 9) (by decide)
      (mul_le_mul_of_nonneg_left hcube (by decide : (0 : ℤ) ≤ 480))
    have hnone : (480 * 127 ^ 3 : ℤ).tdiv (10 ^ 9) = 0 := by decide
    omega

/-- For every window and every elapsed time the code has a value and it is the one of the
integer curve exactly where the cube fits, and up to there the window never falls. -/
theorem cubicWindow_exact (wMaxBytes elapsedMicros : ℕ) (hw : wMaxBytes < 2 ^ 32)
    (he : elapsedMicros < 2 ^ 64) :
    (cubicWindow wMaxBytes elapsedMicros = some (cubicSpec wMaxBytes elapsedMicros) ↔
        CubeFits wMaxBytes elapsedMicros) ∧
      (CubeFits wMaxBytes elapsedMicros → ∀ earlier, earlier ≤ elapsedMicros →
        ∃ before ∈ cubicWindow wMaxBytes earlier, ∃ after ∈ cubicWindow wMaxBytes elapsedMicros,
          before ≤ after) := by
  by_cases hzero : wMaxBytes = 0
  · subst hzero
    have hflat : ∀ micros, cubicWindow 0 micros = some 0 := fun _ => if_pos (.inr rfl)
    constructor
    · rw [hflat, Option.some_inj, eq_comm, cubicSpec_zero, CubeFits, if_pos rfl]
    · intro _ earlier _
      exact ⟨0, hflat earlier, 0, hflat elapsedMicros, le_rfl⟩
  · have hfits : CubeFits wMaxBytes elapsedMicros ↔
        cubicOffset wMaxBytes elapsedMicros ≤ cubeLimit := by
      rw [CubeFits, if_neg hzero]
    rw [hfits, cubicWindow_eq hw he hzero]
    constructor
    · split_ifs with hlimit
      · simp [hlimit]
      · simp [hlimit]
    · intro hlimit earlier hearlier
      have hbefore : cubicOffset wMaxBytes earlier ≤ cubeLimit := by
        rw [cubicOffset] at hlimit ⊢
        omega
      refine ⟨cubicSpec wMaxBytes earlier, ?_, cubicSpec wMaxBytes elapsedMicros, ?_,
        cubicSpec_mono wMaxBytes hearlier⟩
      · rw [cubicWindow_eq hw (by omega) hzero, if_pos hbefore]
        rfl
      · rw [if_pos hlimit]
        rfl

theorem cubicWindow_exact_after_a_minute :
    CubeFits 12000 60000000 ∧ cubicWindow 12000 60000000 = some (cubicSpec 12000 60000000) := by
  have hroot : inflection 12000 = 1957 := by
    unfold inflection
    exact floorCbrt_eq (by decide) (by decide)
  have hfits : CubeFits 12000 60000000 := by
    rw [CubeFits, cubicOffset, hroot]
    decide
  exact ⟨hfits, (cubicWindow_exact 12000 60000000 (by decide) (by decide)).1.mpr hfits⟩

/-- Five minutes after the last reduction of a window of ten packets the product leaves the
word although the clamp has not moved the offset. -/
theorem cubicWindow_overflows :
    cubicWindow 12000 300000000 = none ∧ (300000 : ℤ) - cubicMilli 12000 < offsetLimit ∧
      2 ^ 63 ≤ 480 * ((300000 : ℤ) - cubicMilli 12000) ^ 3 := by
  decide +kernel

end BcpFlux.Peer
