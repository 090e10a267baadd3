import BcpFlux.Basic
import Mathlib.Data.Nat.Bitwise

/-! # The replay window

`ReplayWindow::Accept` as the source computes it: a high-water mark and a bitmap of
64-bit words, bit `i` of the whole standing for the counter `i` below the mark.
-/

namespace BcpFlux.Socket

/-- The window over one peer's block.  Its walk counts the words down in an `int`, and
`ReplayFor` never gives it more than that holds. -/
structure ReplayWindow where
  words : ℕ
  high : ℕ
  bmp : ℕ → ℕ
  words_lt : words < 2 ^ 31

namespace ReplayWindow

/-- `replayWords_`, as `Init` counts them: the sum is taken in 32 bits. -/
def replayWords (replayWindowBits : ℕ) : ℕ :=
  let words := u32 (replayWindowBits + 63) / 64
  if words = 0 then 1 else words

theorem replayWords_lt (replayWindowBits : ℕ) : replayWords replayWindowBits < 2 ^ 26 := by
  have hword : u32 (replayWindowBits + 63) < 2 ^ 32 := Nat.mod_lt _ (by decide)
  unfold replayWords
  dsimp only
  split_ifs <;> omega

/-- `ReplayFor`, over a block that holds this mark and these words. -/
def replayFor (replayWindowBits high : ℕ) (bmp : ℕ → ℕ) : ReplayWindow :=
  ⟨replayWords replayWindowBits, high, bmp, (replayWords_lt replayWindowBits).trans (by decide)⟩

/-- `Reset`. -/
def reset (w : ReplayWindow) : ReplayWindow := { w with high := 0, bmp := fun _ => 0 }

/-- Word `w` after the bitmap moved up by `diff` bits.  The source walks the words downwards
in place, so each one is built from words not yet overwritten. -/
def shiftedWord (bmp : ℕ → ℕ) (diff w : ℕ) : ℕ :=
  let wordShift := diff / 64
  let bitShift := diff % 64
  if w < wordShift then 0
  else
    let src := w - wordShift
    let v := bmp src <<< bitShift % 2 ^ 64
    if bitShift ≠ 0 ∧ 1 ≤ src then v ||| bmp (src - 1) >>> (64 - bitShift) else v

/-- The bitmap after the window slid up by `diff`, its new top bit set. -/
def slide (w : ReplayWindow) (diff : ℕ) : ℕ → ℕ := fun i =>
  let moved := if i < w.words then
      if w.words * 64 ≤ diff then 0 else shiftedWord w.bmp diff i
    else w.bmp i
  if i = 0 then moved ||| 1 else moved

/-- `Accept`: the window after the counter is taken, or nothing for a refused counter. -/
def accept (w : ReplayWindow) (counter : ℕ) : Option ReplayWindow :=
  if counter = 0 then none
  else if w.high < counter then
    some { w with high := counter, bmp := w.slide (counter - w.high) }
  else
    let diff := w.high - counter
    if w.words * 64 ≤ diff then none
    else if (w.bmp (diff / 64)).testBit (diff % 64) then none
    else some { w with
      bmp := fun i => if i = diff / 64 then w.bmp i ||| 1 <<< (diff % 64) else w.bmp i }

theorem accept_reset (w : ReplayWindow) {counter : ℕ} (h : counter ≠ 0) :
    (w.reset.accept counter).isSome = true := by
  have hpos : 0 < counter := Nat.pos_of_ne_zero h
  simp [accept, reset, h, hpos]

/-- The window and the counters it took since the reset, after one more `Accept`. -/
def record (s : ReplayWindow × List ℕ) (counter : ℕ) : ReplayWindow × List ℕ :=
  match s.1.accept counter with
  | none => s
  | some w => (w, counter :: s.2)

/-- The highest counter of a list, zero when there is none. -/
def highest (taken : List ℕ) : ℕ := taken.foldr max 0

theorem le_highest {taken : List ℕ} {c : ℕ} (h : c ∈ taken) : c ≤ highest taken := by
  induction taken with
  | nil => cases h
  | cons x rest ih =>
    rcases List.mem_cons.mp h with rfl | h
    · exact le_max_left _ _
    · exact (ih h).trans (le_max_right _ _)

/-- Bit `d` of the bitmap, which stands for the counter `d` below the mark. -/
def bit (bmp : ℕ → ℕ) (d : ℕ) : Bool := (bmp (d / 64)).testBit (d % 64)

theorem shiftedWord_lt {bmp : ℕ → ℕ} (hbmp : ∀ i, bmp i < 2 ^ 64) (diff i : ℕ) :
    shiftedWord bmp diff i < 2 ^ 64 := by
  have hlow : bmp (i - diff / 64) <<< (diff % 64) % 2 ^ 64 < 2 ^ 64 := Nat.mod_lt _ (by decide)
  unfold shiftedWord
  dsimp only
  split_ifs
  · decide
  · refine Nat.or_lt_two_pow hlow (lt_of_le_of_lt ?_ (hbmp (i - diff / 64 - 1)))
    rw [Nat.shiftRight_eq_div_pow]
    exact Nat.div_le_self _ _
  · exact hlow

/-- Shifting by words and by bits is shifting the bitmap as a whole. -/
theorem bit_shiftedWord {bmp : ℕ → ℕ} (hbmp : ∀ i, bmp i < 2 ^ 64) (diff d : ℕ) :
    bit (shiftedWord bmp diff) d = (decide (diff ≤ d) && bit bmp (d - diff)) := by
  have hd : d % 64 < 64 := Nat.mod_lt _ (by decide)
  have hword : ∀ n : ℕ, (n <<< (diff % 64) % 2 ^ 64).testBit (d % 64)
      = (decide (diff % 64 ≤ d % 64) && n.testBit (d % 64 - diff % 64)) := fun n => by
    rw [Nat.testBit_mod_two_pow, Nat.testBit_shiftLeft, decide_eq_true hd, Bool.true_and]
  unfold bit shiftedWord
  dsimp only
  by_cases hbelow : d / 64 < diff / 64
  · have hlt : ¬ diff ≤ d := by omega
    simp [hbelow, hlt]
  rw [if_neg hbelow]
  by_cases hlow : diff % 64 ≤ d % 64
  · -- the bit comes from the word the shift counts from
    have hle : diff ≤ d := by omega
    have hquot : (d - diff) / 64 = d / 64 - diff / 64 := by omega
    have hrem : (d - diff) % 64 = d % 64 - diff % 64 := by omega
    have hcarry : (bmp (d / 64 - diff / 64 - 1)).testBit (64 - diff % 64 + d % 64) = false :=
      Nat.testBit_lt_two_pow
        (lt_of_lt_of_le (hbmp _) (Nat.pow_le_pow_right (by decide) (by omega)))
    split_ifs
    · rw [Nat.testBit_or, hword]
      simp [hlow, hle, hquot, hrem, hcarry]
    · rw [hword]
      simp [hlow, hle, hquot, hrem]
  · -- the bit is carried in from the word below, if there is one
    have hzero : diff % 64 ≠ 0 := by omega
    by_cases hsrc : 1 ≤ d / 64 - diff / 64
    · have hle : diff ≤ d := by omega
      have hquot : (d - diff) / 64 = d / 64 - diff / 64 - 1 := by omega
      have hrem : (d - diff) % 64 = 64 - diff % 64 + d % 64 := by omega
      rw [if_pos ⟨hzero, hsrc⟩, Nat.testBit_or, hword]
      simp [hlow, hle, hquot, hrem]
    · have hle : ¬ diff ≤ d := by omega
      rw [if_neg fun h => hsrc h.2, hword]
      simp [hlow, hle]

/-- The mark is the highest counter taken, and inside the window the bitmap says which
counters were. -/
structure Marks (w : ReplayWindow) (taken : List ℕ) : Prop where
  high : w.high = highest taken
  word : ∀ i, w.bmp i < 2 ^ 64
  seen : ∀ d < 64 * w.words, d < w.high → (bit w.bmp d = true ↔ w.high - d ∈ taken)

theorem marks_reset (w : ReplayWindow) : Marks w.reset [] where
  high := rfl
  word _ := by simp [reset]
  seen _ _ hd := absurd hd (Nat.not_lt_zero _)

variable {w : ReplayWindow} {taken : List ℕ} {c : ℕ}

theorem bit_slide (hw : ∀ i, w.bmp i < 2 ^ 64) (diff : ℕ) {d : ℕ} (hd : d < 64 * w.words) :
    bit (w.slide diff) d = (decide (d = 0) || (decide (diff ≤ d) && bit w.bmp (d - diff))) := by
  have hword : d / 64 < w.words := by omega
  have hmoved : (if w.words * 64 ≤ diff then 0 else shiftedWord w.bmp diff (d / 64)).testBit (d % 64)
      = (decide (diff ≤ d) && bit w.bmp (d - diff)) := by
    rw [← bit_shiftedWord hw]
    split_ifs with hpast
    · have hlt : ¬ diff ≤ d := by omega
      simp [bit_shiftedWord hw, hlt]
    · rfl
  simp only [bit, slide, if_pos hword] at hmoved ⊢
  rw [← hmoved]
  by_cases hzero : d / 64 = 0
  · have hone : Nat.testBit 1 (d % 64) = decide (d = 0) := by
      rw [Bool.eq_iff_iff, Nat.testBit_one_eq_true_iff_self_eq_zero, decide_eq_true_iff]
      omega
    rw [if_pos hzero, Nat.testBit_or, hone, Bool.or_comm]
  · have hne : d ≠ 0 := fun h => hzero (by rw [h])
    simp [hzero, hne]

theorem Marks.slide (h : Marks w taken) (hc : w.high < c) :
    Marks { w with high := c, bmp := w.slide (c - w.high) } (c :: taken) where
  high := (max_eq_left (h.high ▸ hc.le)).symm
  word i := by
    have hmoved : ∀ n < 2 ^ 64, n ||| 1 < 2 ^ 64 := fun n hn => Nat.or_lt_two_pow hn (by decide)
    have hshift := shiftedWord_lt h.word (c - w.high) i
    have hold := h.word i
    dsimp only [ReplayWindow.slide]
    split_ifs
    all_goals first | exact hmoved _ ‹_› | assumption | decide
  seen d hd hlt := by
    dsimp only at hd hlt ⊢
    rw [bit_slide h.word _ hd, List.mem_cons]
    have hself : c - d = c ↔ d = 0 := by omega
    by_cases hle : c - w.high ≤ d
    · have hold := h.seen (d - (c - w.high)) (by omega) (by omega)
      have hsame : w.high - (d - (c - w.high)) = c - d := by omega
      rw [hsame] at hold
      simp [hle, hself, hold]
    · -- a counter above the old mark was never taken
      have hnew : c - d ∉ taken := fun hmem => by
        have := le_highest hmem
        have := h.high
        omega
      simp [hle, hself, hnew]

theorem bit_mark (bmp : ℕ → ℕ) (d e : ℕ) :
    bit (fun i => if i = d / 64 then bmp i ||| 1 <<< (d % 64) else bmp i) e
      = (decide (e = d) || bit bmp e) := by
  unfold bit
  dsimp only
  split_ifs with hword
  · have hone : (1 <<< (d % 64)).testBit (e % 64) = decide (e = d) := by
      rw [Nat.one_shiftLeft, Nat.testBit_two_pow]
      exact decide_eq_decide.mpr ⟨fun h => by omega, fun h => by rw [h]⟩
    rw [Nat.testBit_or, hone, Bool.or_comm]
  · have hne : e ≠ d := fun h => hword (by rw [h])
    simp [hne]

theorem Marks.mark (h : Marks w taken) (hle : c ≤ w.high) :
    Marks { w with
      bmp := fun i => if i = (w.high - c) / 64 then w.bmp i ||| 1 <<< ((w.high - c) % 64)
        else w.bmp i } (c :: taken) where
  high := (h.high.trans (max_eq_right (h.high ▸ hle)).symm)
  word i := by
    have hmask : 1 <<< ((w.high - c) % 64) < 2 ^ 64 := by
      rw [Nat.one_shiftLeft]
      exact Nat.pow_lt_pow_right (by decide) (Nat.mod_lt _ (by decide))
    dsimp only
    split_ifs
    · exact Nat.or_lt_two_pow (h.word i) hmask
    · exact h.word i
  seen d hd hlt := by
    have hold := h.seen d hd hlt
    have hself : w.high - d = c ↔ d = w.high - c := by
      dsimp only at hlt
      omega
    rw [bit_mark, List.mem_cons]
    simp [hold, hself]

theorem Marks.accept (h : Marks w taken) :
    ((w.accept c).isSome = true ↔ c ≠ 0 ∧ c ∉ taken ∧
      (highest taken < c ∨ highest taken - c < 64 * w.words)) ∧
    ∀ w', w.accept c = some w' → Marks w' (c :: taken) ∧ w'.words = w.words := by
  have hhigh := h.high
  unfold ReplayWindow.accept
  by_cases hzero : c = 0
  · simp [hzero]
  by_cases habove : w.high < c
  · have hnew : c ∉ taken := fun hmem => by
      have := le_highest hmem
      omega
    simpa [hzero, habove, ← hhigh, hnew] using h.slide habove
  · have hseen := h.seen (w.high - c)
    have hback : w.high - (w.high - c) = c := by omega
    rw [hback, bit] at hseen
    have hmark := h.mark (Nat.le_of_not_lt habove)
    dsimp only
    split_ifs with hold hbit
    · have hout : ¬ w.high - c < 64 * w.words := by omega
      simp [← hhigh, habove, hout]
    · have hmem := (hseen (by omega) (by omega)).mp hbit
      simp [hmem]
    · have hin : w.high - c < 64 * w.words := by omega
      have hmem : c ∉ taken := fun hmem => hbit ((hseen hin (by omega)).mpr hmem)
      simpa [hzero, hmem, ← hhigh, hin] using hmark

theorem marks_run (cs : List ℕ) (s : ReplayWindow × List ℕ) (h : Marks s.1 s.2)
    (hs : s.1.words = w.words) :
    Marks (cs.foldl record s).1 (cs.foldl record s).2 ∧ (cs.foldl record s).1.words = w.words := by
  induction cs generalizing s with
  | nil => exact ⟨h, hs⟩
  | cons c rest ih =>
    have hstep := (h.accept (c := c)).2
    refine ih (record s c) ?_ ?_ <;> unfold record <;> split
    · exact h
    · exact (hstep _ ‹_›).1
    · exact hs
    · exact (hstep _ ‹_›).2.trans hs

/-- After a reset and any calls, `Accept` takes exactly the counters that are not zero, were
not taken and lie above the mark or inside the window; a refusal changes nothing. -/
theorem accept_matches_reference (w : ReplayWindow) (cs : List ℕ) (c : ℕ) :
    let s := cs.foldl record (w.reset, [])
    ((s.1.accept c).isSome = true ↔ c ≠ 0 ∧ c ∉ s.2 ∧
      (highest s.2 < c ∨ highest s.2 - c < 64 * w.words)) ∧
    ((s.1.accept c).isSome = false → record s c = s) := by
  intro s
  obtain ⟨hmarks, hsame⟩ := marks_run cs (w.reset, []) (marks_reset w) rfl
  refine ⟨hsame ▸ hmarks.accept.1, fun hnone => ?_⟩
  rw [Option.isSome_eq_false_iff, Option.isNone_iff_eq_none] at hnone
  unfold record
  rw [hnone]

theorem accept_matches_reference_jump :
    (([100, 37, 100].foldl record ((replayFor 64 0 fun _ => 0).reset, [])).1.accept 37).isSome
      = false := by
  refine Bool.eq_false_iff.mpr fun hsome => ?_
  have h := (accept_matches_reference (replayFor 64 0 fun _ => 0) [100, 37, 100] 37).1.mp hsome
  exact h.2.1 (by decide)

end ReplayWindow

end BcpFlux.Socket
