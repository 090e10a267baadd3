import BcpFlux.Socket.Congestion

/-! # The starvation verdict

Six fields of a peer hold the verdict: a candidate clock, the verdict itself, the clock of a
path that cleared, the moment of the last exit and the two references frozen at the verdict.
Only three stages of a pass write them, and each keeps them consistent.
-/

namespace BcpFlux.Socket
open Library BcpFlux.Flow Peer

structure Starvation where
  candidateSince : ℕ
  since : ℕ
  clearSince : ℕ
  exitedAt : ℕ
  queueCap : ℕ
  minRtt : ℕ
deriving DecidableEq, Repr

structure Starvation.WellFormed (v : Starvation) : Prop where
  exclusive : ¬ (v.since ≠ 0 ∧ v.exitedAt ≠ 0)
  references : v.since ≠ 0 ∨ v.exitedAt ≠ 0 → v.minRtt ≠ 0 ∧ v.queueCap ≠ 0
  candidate : v.since ≠ 0 → v.candidateSince = 0
  clear : v.clearSince ≠ 0 → v.since ≠ 0

namespace Controller

def starvation (c : Controller) : Starvation :=
  ⟨c.starvedCandidateSince, c.starvedSince, c.starvedClearSince, c.starvedExitedAt,
    c.starvedQueueCap, c.starvedMinRtt⟩

/-! ## Stages that leave the verdict alone -/

section Frame
variable (lim : Limits) (c : Controller) (delta : CongestionDelta) (now : ℕ)

theorem measure_starvation : (c.measure delta now).starvation = c.starvation := by
  unfold measure foldSample sample hear
  split_ifs <;> rfl

theorem trim_starvation (inFlightAtEvent : ℕ) :
    (c.trim lim delta inFlightAtEvent now).starvation = c.starvation := by
  unfold trim
  dsimp only
  split_ifs <;> rfl

theorem regrow_starvation : (c.regrow lim delta).1.starvation = c.starvation := by
  unfold regrow
  split_ifs <;> rfl

theorem slowStart_starvation : (c.slowStart lim delta now).1.starvation = c.starvation := by
  unfold slowStart
  split_ifs <;> rfl

theorem followCurve_starvation : (c.followCurve lim now).starvation = c.starvation := by
  unfold followCurve
  dsimp only
  split_ifs <;> rfl

end Frame

/-! ## Stages that write it -/

section Stages
variable {lim : Limits} {c : Controller} (delta : CongestionDelta) {now : ℕ}

theorem forgetEpisode_wellFormed (h : c.starvation.WellFormed) :
    (c.forgetEpisode now).starvation.WellFormed := by
  unfold forgetEpisode
  split_ifs with hold
  · -- the verdict is not in force, since an exit is on record
    have hsince : c.starvedSince = 0 := by
      by_contra hne
      exact h.exclusive ⟨hne, hold.1⟩
    exact ⟨fun hboth => hboth.2 rfl, fun hany => (hany.elim (· hsince) (· rfl)).elim,
      fun hne => absurd hsince hne, h.clear⟩
  · exact h

/-- A standing queue has a lowest round trip under it and is not empty. -/
theorem queueOverTarget_pos (h : c.queueOverTarget = true) :
    c.minRtt.lowest ≠ 0 ∧ c.queueMicros ≠ 0 := by
  obtain ⟨hlowest, hqueue⟩ := of_decide_eq_true h
  exact ⟨hlowest, Nat.ne_zero_of_lt hqueue⟩

theorem judgeStarvation_wellFormed (h : c.starvation.WellFormed) :
    (c.judgeStarvation lim delta now).starvation.WellFormed := by
  unfold judgeStarvation
  by_cases hsince : c.starvedSince ≠ 0
  · rwa [if_pos hsince]
  have hforgot : (c.forgetEpisode now).starvation.WellFormed := forgetEpisode_wellFormed h
  have hfree : (c.forgetEpisode now).starvedSince = 0 := by
    unfold forgetEpisode
    split_ifs <;> exact not_not.mp hsince
  generalize c.forgetEpisode now = c at hforgot hfree ⊢
  dsimp only
  split_ifs with hstarved hrelapse hcandidate hconfirmed
  · -- a relapse keeps the references of the exit it follows
    exact ⟨fun hboth => hboth.2 rfl, fun _ => hforgot.references (.inr hrelapse.2), fun _ => rfl,
      fun hne => absurd rfl hne⟩
  · exact ⟨hforgot.exclusive, hforgot.references, fun hne => absurd hfree hne, hforgot.clear⟩
  · obtain ⟨hlowest, hqueue⟩ := queueOverTarget_pos hstarved.1
    have hexit : c.starvedExitedAt = 0 := by
      by_contra hne
      exact hrelapse ⟨hconfirmed.1, hne⟩
    exact ⟨fun hboth => hboth.2 hexit,
      fun _ => ⟨hlowest, fun hcap => hqueue (Nat.eq_zero_of_add_eq_zero_right hcap)⟩,
      fun _ => rfl, fun hne => absurd rfl hne⟩
  · exact hforgot
  · exact ⟨hforgot.exclusive, hforgot.references, fun _ => rfl, hforgot.clear⟩

theorem probe_wellFormed (h : c.starvation.WellFormed) :
    (c.probe lim delta now).starvation.WellFormed := by
  have hclear : (⟨0, 0, 0, 0, 0, 0⟩ : Starvation).WellFormed := by
    constructor <;> simp
  unfold probe collapse
  split_ifs
  · exact hclear
  · exact hclear
  · exact h

theorem recover_wellFormed (hsince : c.starvedSince ≠ 0)
    (h : c.starvation.WellFormed) : (c.recover lim delta now).1.starvation.WellFormed := by
  unfold recover
  split_ifs
  · rw [regrow_starvation]
    exact ⟨h.exclusive, h.references, h.candidate, fun _ => hsince⟩
  · -- the exit keeps the references
    exact ⟨fun hboth => hboth.1 rfl, fun _ => h.references (.inl hsince),
      fun hne => absurd rfl hne, fun hne => absurd rfl hne⟩
  · rwa [regrow_starvation]
  · rw [regrow_starvation]
    exact ⟨h.exclusive, h.references, h.candidate, fun hne => absurd rfl hne⟩

theorem grow_wellFormed (h : c.starvation.WellFormed) :
    (c.grow lim delta now).1.starvation.WellFormed := by
  unfold grow
  split_ifs with hsince
  · exact recover_wellFormed delta hsince h
  · rwa [slowStart_starvation]
  · exact h
  · rwa [followCurve_starvation]

theorem applyCongestion_wellFormed (h : c.starvation.WellFormed) :
    (c.applyCongestion lim delta now).peer.starvation.WellFormed := by
  have hseen : ((c.observe lim delta now).probe lim delta now).starvation.WellFormed := by
    rw [← measure_starvation c delta now] at h
    exact probe_wellFormed delta (judgeStarvation_wellFormed delta h)
  unfold applyCongestion
  dsimp only
  split_ifs
  · rwa [trim_starvation]
  · exact hseen
  · exact grow_wellFormed delta hseen

end Stages

/-- After any calls, whatever they report and whatever sends did to the counters in between:
the verdict and the exit exclude each other, either has its references, a verdict has no
candidate clock, and the clock of a cleared path runs only under a verdict. -/
theorem starvation_wellFormed (lim : Limits) (calls : List Call) :
    (run (step lim) registered calls).starvation.WellFormed := by
  refine run_invariant (step lim) (fun c => c.starvation.WellFormed) (fun _ _ => True)
    (fun c call _ h => ?_) ?_ (along_true (step lim) registered calls)
  · exact applyCongestion_wellFormed (c := c.met call) call.delta h
  · constructor <;> simp [registered, starvation]

end Controller

end BcpFlux.Socket
