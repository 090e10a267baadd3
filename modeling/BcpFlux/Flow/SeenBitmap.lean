import BcpFlux.Flow.Inbound
import BcpFlux.Library.Runs

/-! # The sliding seen bitmap is a set of recent sequences

`CommitSeen` reuses the cell of a sequence one window back.  The invariant that
makes this sound is that a set bit always belongs to a sequence of the current
window; under it the bitmap is exactly the set of committed sequences, restricted
to the window.
-/

namespace BcpFlux.Flow.InAssociation
open Library

variable {flow : InAssociation} {s seq : ℕ}

def InWindow (flow : InAssociation) (s : ℕ) : Prop :=
  windowFloor flow.windowBits flow.recvHighest ≤ s ∧ s ≤ flow.recvHighest

def Marked (flow : InAssociation) (s : ℕ) : Prop := flow.InWindow s ∧ flow.seenTest s = true

/-- Every set bit belongs to the current window. -/
structure SeenWf (flow : InAssociation) : Prop where
  pow2 : IsPow2 flow.windowBits
  owned : ∀ i, flow.seen i = true → ∃ s, flow.InWindow s ∧ slot flow.windowBits s = i

theorem windowFloor_mono (bits : ℕ) {a b : ℕ} (hab : a ≤ b) : windowFloor bits a ≤ windowFloor bits b := by
  simp only [windowFloor]
  split <;> split <;> omega

theorem lt_windowFloor_add (bits high : ℕ) : high < windowFloor bits high + bits := by
  rw [windowFloor]
  split <;> omega

theorem windowFloor_pos (bits high : ℕ) : 1 ≤ windowFloor bits high := by
  rw [windowFloor]
  split <;> omega

theorem windowFloor_le {bits high : ℕ} (hb : 0 < bits) (hh : 1 ≤ high) :
    windowFloor bits high ≤ high := by
  rw [windowFloor]
  split <;> omega

theorem alreadySeen_iff :
    flow.alreadySeen s = true ↔ s ≤ flow.recvHighest ∧
      (s < windowFloor flow.windowBits flow.recvHighest ∨ flow.seenTest s = true) := by
  rw [alreadySeen]
  split_ifs with h1 h2
  · simp only [false_iff]; omega
  · simp only [true_iff]; exact ⟨by omega, Or.inl h2⟩
  · constructor
    · exact fun h => ⟨by omega, Or.inr h⟩
    · rintro ⟨-, h | h⟩
      · exact absurd h h2
      · exact h

theorem add_le_of_slot_eq {bits t : ℕ} (hp : IsPow2 bits) (hlt : t < s)
    (h : slot bits t = slot bits s) : t + bits ≤ s := by
  by_contra hclose
  have := hp.slot_inj (le_of_lt hlt) (by omega) h
  omega

theorem slideSeen_seen (wf : flow.SeenWf) (hlt : flow.recvHighest < seq)
    (hlo : windowFloor flow.windowBits seq ≤ s) (hhi : s ≤ seq) :
    (flow.slideSeen seq).seen (slot flow.windowBits s) = true ↔
      s ≤ flow.recvHighest ∧ flow.seenTest s = true := by
  have hspan := lt_windowFloor_add flow.windowBits flow.recvHighest
  simp only [slideSeen, seenTest]
  split_ifs with hjump
  · have : flow.recvHighest < windowFloor flow.windowBits seq := by
      unfold windowFloor; split <;> omega
    simp only [false_iff]
    omega
  · rw [fill_apply]
    split_ifs with hcleared
    · obtain ⟨k, hk, heq⟩ := hcleared
      simp only [false_iff, not_and]
      intro hle
      -- a cleared cell below the new floor cannot be the cell of `s`
      have := wf.pow2.slot_inj (by omega) (by omega) heq.symm
      omega
    · constructor
      · intro hbit
        refine ⟨?_, hbit⟩
        by_contra hnew
        obtain ⟨t, ⟨htlo, hthi⟩, hslot⟩ := wf.owned _ hbit
        have hback := add_le_of_slot_eq wf.pow2 (by omega) hslot
        have hfl : t < windowFloor flow.windowBits seq := by unfold windowFloor; split <;> omega
        exact hcleared ⟨t - windowFloor flow.windowBits flow.recvHighest, by omega,
          by rw [← hslot]; congr 1; omega⟩
      · exact fun h => h.2

theorem slideSeen_owned (wf : flow.SeenWf) {i : ℕ}
    (h : (flow.slideSeen seq).seen i = true) :
    ∃ s, windowFloor flow.windowBits seq ≤ s ∧ s ≤ flow.recvHighest ∧
      slot flow.windowBits s = i := by
  simp only [slideSeen] at h
  split_ifs at h with hjump
  rw [fill_apply] at h
  split_ifs at h with hcleared
  obtain ⟨t, ⟨htlo, hthi⟩, hslot⟩ := wf.owned _ h
  refine ⟨t, ?_, hthi, hslot⟩
  by_contra hfl
  exact hcleared ⟨t - windowFloor flow.windowBits flow.recvHighest, by omega,
    by rw [← hslot]; congr 1; omega⟩

theorem commitSeen_seenTest (wf : flow.SeenWf)
    (hlo : windowFloor flow.windowBits flow.recvHighest ≤ seq)
    (hs : (flow.commitSeen seq).InWindow s) :
    (flow.commitSeen seq).seenTest s = true ↔
      s = seq ∨ s ≤ flow.recvHighest ∧ flow.seenTest s = true := by
  have hspan := lt_windowFloor_add flow.windowBits (max flow.recvHighest seq)
  simp only [InWindow, commitSeen_windowBits, commitSeen_recvHighest] at hs
  have hcell : slot flow.windowBits s = slot flow.windowBits seq → s = seq := by
    intro heq
    rcases le_total s seq with h | h
    · exact wf.pow2.slot_inj h (by omega) heq
    · refine (wf.pow2.slot_inj h ?_ heq.symm).symm
      by_cases hnew : flow.recvHighest < seq
      · omega
      · rw [max_eq_left (by omega)] at hs hspan
        omega
  simp only [seenTest, commitSeen_windowBits]
  by_cases hnew : flow.recvHighest < seq
  · have hmax : max flow.recvHighest seq = seq := by omega
    rw [hmax] at hs
    have hbit : (flow.commitSeen seq).seen =
        put flow.windowBits (flow.slideSeen seq).seen seq true := by
      simp only [commitSeen, hnew, if_true]; rfl
    rw [hbit, put_apply]
    split_ifs with heq
    · simp [hcell heq]
    · rw [slideSeen_seen wf hnew hs.1 hs.2]
      have : s ≠ seq := fun h => heq (by rw [h])
      simp [this, seenTest]
  · have hbit : (flow.commitSeen seq).seen = put flow.windowBits flow.seen seq true := by
      simp only [commitSeen, hnew, if_false]
    rw [hbit, put_apply]
    split_ifs with heq
    · simp [hcell heq]
    · have : s ≠ seq := fun h => heq (by rw [h])
      have : s ≤ flow.recvHighest := by omega
      simp [*]

theorem marked_commitSeen (wf : flow.SeenWf)
    (hlo : windowFloor flow.windowBits flow.recvHighest ≤ seq) :
    (flow.commitSeen seq).Marked s ↔
      (flow.commitSeen seq).InWindow s ∧ (s = seq ∨ flow.Marked s) := by
  constructor
  · rintro ⟨hw, hbit⟩
    refine ⟨hw, ?_⟩
    rcases (commitSeen_seenTest wf hlo hw).mp hbit with h | ⟨h, hold⟩
    · exact Or.inl h
    · refine Or.inr ⟨⟨le_trans ?_ hw.1, h⟩, hold⟩
      simp only [commitSeen_windowBits, commitSeen_recvHighest]
      exact windowFloor_mono _ (le_max_left _ _)
  · rintro ⟨hw, h⟩
    refine ⟨hw, (commitSeen_seenTest wf hlo hw).mpr ?_⟩
    rcases h with h | h
    · exact Or.inl h
    · exact Or.inr ⟨h.1.2, h.2⟩

theorem SeenWf.commitSeen (wf : flow.SeenWf)
    (hlo : windowFloor flow.windowBits flow.recvHighest ≤ seq) :
    (flow.commitSeen seq).SeenWf where
  pow2 := by simpa using wf.pow2
  owned := by
    have hseq : 1 ≤ seq := le_trans (windowFloor_pos _ _) hlo
    intro i hi
    simp only [InWindow, commitSeen_windowBits, commitSeen_recvHighest]
    by_cases hnew : flow.recvHighest < seq
    · have hmax : max flow.recvHighest seq = seq := by omega
      simp only [InAssociation.commitSeen, hnew, if_true] at hi
      rw [hmax]
      rw [put_apply] at hi
      split_ifs at hi with heq
      · exact ⟨seq, ⟨windowFloor_le wf.pow2.pos hseq, le_refl _⟩, heq.symm⟩
      · obtain ⟨t, h1, h2, h3⟩ := slideSeen_owned wf hi
        exact ⟨t, ⟨h1, by omega⟩, h3⟩
    · have hmax : max flow.recvHighest seq = flow.recvHighest := by omega
      simp only [InAssociation.commitSeen, hnew, if_false, put_apply] at hi
      rw [hmax]
      split_ifs at hi with heq
      · exact ⟨seq, ⟨hlo, by omega⟩, heq.symm⟩
      · exact wf.owned i hi

theorem windowFloor_le_of_not_alreadySeen (hb : 0 < flow.windowBits)
    (h : flow.alreadySeen s = false) :
    windowFloor flow.windowBits flow.recvHighest ≤ s := by
  by_contra hlt
  have hle : s ≤ flow.recvHighest := by
    rw [windowFloor] at hlt
    split at hlt <;> omega
  have : flow.alreadySeen s = true := alreadySeen_iff.mpr ⟨hle, Or.inl (by omega)⟩
  simp [h] at this

theorem alreadySeen_commitSeen (wf : flow.SeenWf)
    (hlo : windowFloor flow.windowBits flow.recvHighest ≤ seq)
    (h : flow.alreadySeen s = true ∨ s = seq) : (flow.commitSeen seq).alreadySeen s = true := by
  rw [alreadySeen_iff]
  have hle : s ≤ (flow.commitSeen seq).recvHighest := by
    rw [commitSeen_recvHighest]
    rcases h with h | rfl
    · exact le_trans (alreadySeen_iff.mp h).1 (le_max_left _ _)
    · exact le_max_right _ _
  refine ⟨hle, ?_⟩
  by_cases hw : (flow.commitSeen seq).InWindow s
  · refine Or.inr ((commitSeen_seenTest wf hlo hw).mpr ?_)
    rcases h with h | h
    · obtain ⟨h1, h2 | h2⟩ := alreadySeen_iff.mp h
      · have hm := windowFloor_mono flow.windowBits (le_max_left flow.recvHighest seq)
        simp only [InWindow, commitSeen_windowBits, commitSeen_recvHighest] at hw
        omega
      · exact Or.inr ⟨h1, h2⟩
    · exact Or.inl h
  · exact Or.inl (not_le.mp fun hge => hw ⟨hge, hle⟩)

/-! ## Acknowledgement ranges -/

theorem skipSeen_le (flow : InAssociation) (floor : ℕ) (want : Bool) (s : ℕ) :
    flow.skipSeen floor want s ≤ s := by
  induction s with
  | zero => exact le_refl 0
  | succ s ih =>
    rw [skipSeen]
    split
    · exact le_trans ih (Nat.le_succ s)
    · exact le_refl _

theorem skipSeen_skipped (flow : InAssociation) (floor : ℕ) (want : Bool) (s t : ℕ)
    (hlo : flow.skipSeen floor want s < t) (hhi : t ≤ s) :
    floor ≤ t ∧ flow.seenTest t ≠ want := by
  induction s with
  | zero => omega
  | succ s ih =>
    rw [skipSeen] at hlo
    split_ifs at hlo with h
    · rcases Nat.lt_or_ge s t with hst | hst
      · rw [show t = s + 1 by omega]
        exact h
      · exact ih hlo hst
    · omega

theorem seenTest_skipSeen {floor : ℕ} (hfloor : 1 ≤ floor) (want : Bool) (s : ℕ)
    (h : floor ≤ flow.skipSeen floor want s) : flow.seenTest (flow.skipSeen floor want s) = want := by
  induction s with
  | zero =>
    rw [skipSeen] at h
    omega
  | succ s ih =>
    rw [skipSeen] at h ⊢
    split_ifs at h ⊢ with hskip
    · exact ih h
    · by_contra hne
      exact hskip ⟨h, hne⟩

/-- The newest `n` maximal runs, newest first, of the numbers in `S`; older numbers are left out
only when all `n` ranges are taken. -/
structure NewestRuns (S : ℕ → Prop) (n : ℕ) (ranges : List AckRange) : Prop where
  run : ∀ r ∈ ranges, r.first ≤ r.last ∧ (∀ t, r.first ≤ t → t ≤ r.last → S t) ∧
    ¬ S (r.first - 1) ∧ ¬ S (r.last + 1)
  apart : ranges.Pairwise fun newer older => older.last + 1 < newer.first
  length_le : ranges.length ≤ n
  rest : ∀ t, S t → (∃ r ∈ ranges, r.first ≤ t ∧ t ≤ r.last) ∨
    ranges.length = n ∧ ∀ r ∈ ranges, t < r.first

theorem NewestRuns.congr {S T : ℕ → Prop} {n : ℕ} {ranges : List AckRange}
    (h : NewestRuns S n ranges) (hiff : ∀ t, T t ↔ S t) : NewestRuns T n ranges := by
  obtain rfl : T = S := funext fun t => propext (hiff t)
  exact h

theorem newestRuns_nil {S : ℕ → Prop} {n : ℕ} (h : n = 0 ∨ ∀ t, ¬ S t) : NewestRuns S n [] where
  run := by simp
  apart := List.Pairwise.nil
  length_le := Nat.zero_le n
  rest := fun t ht => h.elim (fun hn => .inr ⟨hn.symm, by simp⟩) fun hnone => absurd ht (hnone t)

theorem NewestRuns.cons {S : ℕ → Prop} {n below last : ℕ} {ranges : List AckRange}
    (h : NewestRuns (fun t => S t ∧ t ≤ below) n ranges) (hlt : below < last)
    (hrun : ∀ t, below < t → t ≤ last → S t) (hbelow : ¬ S below) (habove : ∀ t, last < t → ¬ S t) :
    NewestRuns S (n + 1) (⟨below + 1, last⟩ :: ranges) := by
  have hold : ∀ r ∈ ranges, r.last < below := fun r hr => by
    obtain ⟨hle, hS, -, -⟩ := h.run r hr
    obtain ⟨hmem, hbound⟩ := hS r.last hle le_rfl
    exact lt_of_le_of_ne hbound fun heq => hbelow (heq ▸ hmem)
  refine ⟨?_, ?_, Nat.succ_le_succ h.length_le, ?_⟩
  · intro r hr
    rcases List.mem_cons.mp hr with rfl | hr
    · exact ⟨hlt, hrun, hbelow, habove _ (Nat.lt_succ_self last)⟩
    · obtain ⟨hle, hS, hfirst, hlast⟩ := h.run r hr
      have := hold r hr
      exact ⟨hle, fun t hlo hhi => (hS t hlo hhi).1, fun hmem => hfirst ⟨hmem, by omega⟩,
        fun hmem => hlast ⟨hmem, this⟩⟩
  · exact List.pairwise_cons.mpr ⟨fun r hr => Nat.succ_lt_succ (hold r hr), h.apart⟩
  · intro t ht
    by_cases hnew : below < t
    · have hle : t ≤ last := not_lt.mp fun hgt => habove t hgt ht
      exact .inl ⟨_, List.mem_cons_self, hnew, hle⟩
    · rcases h.rest t ⟨ht, not_lt.mp hnew⟩ with ⟨r, hr, hcover⟩ | ⟨hfull, hnewer⟩
      · exact .inl ⟨r, List.mem_cons_of_mem _ hr, hcover⟩
      · refine .inr ⟨congrArg (· + 1) hfull, fun r hr => ?_⟩
        rcases List.mem_cons.mp hr with rfl | hr
        · exact Nat.lt_succ_of_le (not_lt.mp hnew)
        · exact hnewer r hr

/-- The loop from `s` down finds the runs of what is seen from the floor to `s`. -/
theorem ackRangesFrom_runs {floor : ℕ} (hfloor : 1 ≤ floor) (n s : ℕ) :
    NewestRuns (fun t => floor ≤ t ∧ t ≤ s ∧ flow.seenTest t = true) n
      (flow.ackRangesFrom floor n s) := by
  induction n generalizing s with
  | zero => exact newestRuns_nil (.inl rfl)
  | succ n ih =>
    have hlast := skipSeen_le flow floor true s
    have hbelow := skipSeen_le flow floor false (flow.skipSeen floor true s)
    have hclear := skipSeen_skipped flow floor true s
    have hset := skipSeen_skipped flow floor false (flow.skipSeen floor true s)
    have hat : floor ≤ flow.skipSeen floor true s →
        flow.seenTest (flow.skipSeen floor true s) = true := seenTest_skipSeen hfloor true s
    have hend : floor ≤ flow.skipSeen floor false (flow.skipSeen floor true s) →
        flow.seenTest (flow.skipSeen floor false (flow.skipSeen floor true s)) = false :=
      seenTest_skipSeen hfloor false _
    rw [ackRangesFrom]
    dsimp only
    generalize flow.skipSeen floor true s = last at hlast hbelow hclear hset hat hend ⊢
    generalize flow.skipSeen floor false last = below at hbelow hset hend ⊢
    split_ifs with hnone hdone
    · refine newestRuns_nil (.inr fun t ht => ?_)
      exact (hclear t (by omega) ht.2.1).2 ht.2.2
    -- the older part: empty below the floor, otherwise what the loop finds from the gap down
    all_goals
      have hseen := hat (not_lt.mp hnone)
      refine NewestRuns.cons ?_ ?_ (fun t hlo hhi => ?_) (fun hS => ?_)
        (fun t hlt hS => (hclear t hlt hS.2.1).2 hS.2.2)
    · exact newestRuns_nil (.inr fun t ht => by omega)
    · omega
    · exact ⟨(hset t hlo hhi).1, hhi.trans hlast, by simpa using (hset t hlo hhi).2⟩
    · omega
    · refine (ih below).congr fun t => ?_
      constructor
      · exact fun h => ⟨h.1.1, h.2, h.1.2.2⟩
      · exact fun h => ⟨⟨h.1, h.2.1.trans (hbelow.trans hlast), h.2.2⟩, h.2.1⟩
    · refine lt_of_le_of_ne hbelow fun heq => ?_
      have := hend (not_lt.mp hdone)
      rw [heq, hseen] at this
      cases this
    · exact ⟨(hset t hlo hhi).1, hhi.trans hlast, by simpa using (hset t hlo hhi).2⟩
    · rw [hend (not_lt.mp hdone)] at hS
      cases hS.2.2

theorem buildAckRanges_runs (flow : InAssociation) (maxRanges : ℕ) :
    NewestRuns flow.Marked maxRanges (flow.buildAckRanges maxRanges) := by
  rw [buildAckRanges]
  split_ifs with hempty
  · refine newestRuns_nil (hempty.symm.imp_right fun hzero t ht => ?_)
    have := windowFloor_pos flow.windowBits flow.recvHighest
    have := ht.1.1
    have := ht.1.2
    omega
  · exact (ackRangesFrom_runs (windowFloor_pos _ _) maxRanges _).congr fun t => and_assoc

/-! ## From a reset on -/

theorem windowFor_isPow2 (mode : FlowMode) : IsPow2 (windowFor mode) := by
  cases mode
  · exact ⟨8, rfl⟩
  · exact ⟨8, rfl⟩
  · exact ⟨8, rfl⟩
  · exact ⟨10, rfl⟩

/-- A commit every caller may make: not below the floor of the window. -/
def AboveFloor (flow : InAssociation) (seq : ℕ) : Prop :=
  windowFloor flow.windowBits flow.recvHighest ≤ seq

instance (flow : InAssociation) (seq : ℕ) : Decidable (flow.AboveFloor seq) :=
  inferInstanceAs (Decidable (_ ≤ _))

theorem marked_run (seqs : List ℕ) (wf : flow.SeenWf) {past : List ℕ}
    (hhigh : ∀ s ∈ past, s ≤ flow.recvHighest)
    (hpast : ∀ s, flow.Marked s ↔ flow.InWindow s ∧ s ∈ past)
    (hseqs : Along commitSeen AboveFloor flow seqs) (s : ℕ) :
    (run commitSeen flow seqs).Marked s ↔
      (run commitSeen flow seqs).InWindow s ∧ s ∈ past ++ seqs := by
  induction seqs generalizing flow past with
  | nil => simpa using hpast s
  | cons seq rest ih =>
    have hnext : ∀ s ∈ past ++ [seq], s ≤ (flow.commitSeen seq).recvHighest := by
      intro s hs
      rw [commitSeen_recvHighest]
      rcases List.mem_append.mp hs with hs | hs
      · exact (hhigh s hs).trans (le_max_left _ _)
      · rw [List.mem_singleton.mp hs]
        exact le_max_right _ _
    have hstep : ∀ s, (flow.commitSeen seq).Marked s ↔
        (flow.commitSeen seq).InWindow s ∧ s ∈ past ++ [seq] := by
      intro s
      rw [marked_commitSeen wf hseqs.1, hpast, List.mem_append, List.mem_singleton]
      refine and_congr_right fun hw => ⟨fun h => h.symm.imp_left And.right, fun h => ?_⟩
      refine h.symm.imp_right fun hold => ⟨⟨le_trans ?_ hw.1, hhigh s hold⟩, hold⟩
      rw [commitSeen_windowBits, commitSeen_recvHighest]
      exact windowFloor_mono _ (le_max_left _ _)
    simpa using ih (wf.commitSeen hseqs.1) hnext hstep hseqs.2

/-- After any commits on a reset association, each at or above the floor of its moment: a
sequence counts as seen exactly when it is not above the highest and was committed or has left
the window, and a report lists the newest maximal runs of commits inside the window. -/
theorem acks_report_commits (old : InAssociation) (p : InAssocParams) (now : ℕ) (seqs : List ℕ)
    (hseqs : Along commitSeen AboveFloor (resetInAssoc old p now) seqs) :
    let flow := run commitSeen (resetInAssoc old p now) seqs
    (∀ s, 1 ≤ s → (flow.alreadySeen s = true ↔
      s ≤ flow.recvHighest ∧ (s ∈ seqs ∨ s + flow.windowBits < flow.recvHighest + 1))) ∧
    ∀ maxRanges, NewestRuns (fun s => flow.InWindow s ∧ s ∈ seqs) maxRanges
      (flow.buildAckRanges maxRanges) := by
  intro flow
  have wf : (resetInAssoc old p now).SeenWf := ⟨windowFor_isPow2 p.mode, by simp [resetInAssoc]⟩
  have hmarked : ∀ s, flow.Marked s ↔ flow.InWindow s ∧ s ∈ seqs := by
    have hnone : ∀ s ∈ ([] : List ℕ), s ≤ (resetInAssoc old p now).recvHighest := by simp
    refine marked_run seqs wf hnone (fun s => ?_) hseqs
    simp [Marked, seenTest, resetInAssoc]
  refine ⟨fun s hs => ?_, fun maxRanges => ?_⟩
  · rw [alreadySeen_iff]
    refine and_congr_right fun hle => ?_
    have hfloor : s < windowFloor flow.windowBits flow.recvHighest ↔
        s + flow.windowBits < flow.recvHighest + 1 := by
      unfold windowFloor
      split_ifs <;> omega
    by_cases hlow : s < windowFloor flow.windowBits flow.recvHighest
    · simp [hlow, hfloor.mp hlow]
    · have hw : flow.InWindow s := ⟨not_lt.mp hlow, hle⟩
      have hm := hmarked s
      simp only [Marked, hw, true_and] at hm
      simp [hlow, hm, mt hfloor.mpr hlow]
  · exact (buildAckRanges_runs flow maxRanges).congr fun s => (hmarked s).symm

/-- A commit far ahead, one behind it, and a jump that leaves both behind. -/
theorem acks_report_commits_jump :
    let flow := run commitSeen (resetInAssoc .raw ⟨0, ⟨[], 0, 0⟩, ⟨[]⟩, 1, .reliableOrdered, 0⟩ 0)
      [5, 3, 4, 300]
    Along commitSeen AboveFloor
        (resetInAssoc .raw ⟨0, ⟨[], 0, 0⟩, ⟨[]⟩, 1, .reliableOrdered, 0⟩ 0) [5, 3, 4, 300] ∧
      flow.alreadySeen 2 = true ∧ flow.buildAckRanges 4 = [⟨300, 300⟩] := by
  refine ⟨by decide +kernel, ?_, by decide +kernel⟩
  refine ((acks_report_commits .raw ⟨0, ⟨[], 0, 0⟩, ⟨[]⟩, 1, .reliableOrdered, 0⟩ 0 [5, 3, 4, 300]
    (by decide +kernel)).1 2 (by decide)).mpr ⟨?_, .inr ?_⟩ <;> decide +kernel

end BcpFlux.Flow.InAssociation
