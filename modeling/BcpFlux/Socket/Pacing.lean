import BcpFlux.Library.TokenBucket
import BcpFlux.Transfer.Outgoing

/-! # Pacing over a run of checks

Flows and transfers ask one allowance of the peer, each through its own copy of the refill.
Every caller reads the clock before it takes the peer's lock, so a check may carry an earlier
time than the one before it.  The flow's copy then moves the mark back and the same stretch
is paid out a second time, and the transfer's copy leaves the mark alone.
-/

namespace BcpFlux.Socket
open Library Peer Transfer

/-- Which copy of the pacing gate is asked. -/
inductive PacingGate where
  | flow
  | transfer
deriving DecidableEq, Repr

def PacingGate.allows : PacingGate → PeerBudget → ℕ → ℕ → PeerBudget × Bool
  | .flow => PeerBudget.pacingAllows
  | .transfer => transferPacingAllows

/-- One question to the gate.  A packet the clock lets out may still be stopped by a later
gate, and then nothing is spent. -/
structure PacingCheck where
  gate : PacingGate
  now : ℕ
  wireSize : ℕ
  goes : Bool
deriving DecidableEq, Repr

/-- A peer under checks, with the bytes they let out. -/
structure Paced where
  peer : PeerBudget
  released : ℕ
deriving DecidableEq, Repr

def earns (peer : PeerBudget) : ℕ := peer.congestionBudget * ccPacingGainPercent
def perMicros (peer : PeerBudget) : ℕ := 100 * peer.rtt.srttMicros

/-- The check is not older than the last refill, and the product of the gain fits its word. -/
def InOrder (peer : PeerBudget) (now : ℕ) : Prop :=
  (peer.pacingRefilledAt = 0 ∨ peer.pacingRefilledAt ≤ now) ∧
    earns peer * (now - peer.pacingRefilledAt) < 2 ^ 64

instance (peer : PeerBudget) (now : ℕ) : Decidable (InOrder peer now) :=
  inferInstanceAs (Decidable ((_ ∨ _) ∧ _))

/-- The bucket is full and part of a byte is pending behind the mark. -/
def FractionPending (peer : PeerBudget) (now : ℕ) : Prop :=
  peer.pacingTokens = ccPacingBurstBytes ∧ peer.pacingRefilledAt ≠ 0 ∧
    0 < earns peer * (now - peer.pacingRefilledAt) ∧
    earns peer * (now - peer.pacingRefilledAt) < perMicros peer

instance (peer : PeerBudget) (now : ℕ) : Decidable (FractionPending peer now) :=
  inferInstanceAs (Decidable (_ ∧ _ ∧ _ ∧ _))

/-! ## The two refills -/

section Refill
variable {peer : PeerBudget} {now : ℕ}

/-- Once a round trip is known the copies agree exactly while the clock does not step back. -/
theorem refill_agree_iff (hsrtt : peer.rtt.srttMicros ≠ 0) :
    peer.refillPacing now = refillTransferPacing peer now ↔
      peer.pacingRefilledAt = 0 ∨ peer.pacingRefilledAt ≤ now := by
  rw [PeerBudget.refillPacing, refillTransferPacing, if_neg hsrtt, if_neg hsrtt]
  by_cases hzero : peer.pacingRefilledAt = 0
  · simp [hzero]
  · by_cases hback : now < peer.pacingRefilledAt
    · have hnone : now - peer.pacingRefilledAt = 0 := by omega
      rw [if_pos (.inr hback), if_neg hzero]
      rw [if_pos (.inl hnone)]
      have hstepped : ({ peer with pacingRefilledAt := now } : PeerBudget) ≠ peer := by
        intro heq
        have hmark : now = peer.pacingRefilledAt := congrArg PeerBudget.pacingRefilledAt heq
        omega
      simp only [hstepped, hzero, false_or, false_iff]
      omega
    · rw [if_neg (by simp [hzero, hback]), if_neg hzero]
      simp only [hzero, false_or, true_iff]
      omega

/-- What the refill does in order: it starts the clock, keeps a remainder, or pays out. -/
theorem refillPacing_cases (hsrtt : peer.rtt.srttMicros ≠ 0) (hord : InOrder peer now) :
    (peer.pacingRefilledAt = 0 ∧
        peer.refillPacing now = { peer with pacingRefilledAt := now }) ∨
      (peer.pacingRefilledAt ≤ now ∧
        earns peer * (now - peer.pacingRefilledAt) < perMicros peer ∧
        peer.refillPacing now = peer) ∨
      (peer.pacingRefilledAt ≤ now ∧ peer.refillPacing now = { peer with
        pacingTokens := min (peer.pacingTokens +
          earns peer * (now - peer.pacingRefilledAt) / perMicros peer) ccPacingBurstBytes
        pacingRefilledAt := now }) := by
  have hpos : 0 < perMicros peer := by
    rw [perMicros]
    omega
  rw [PeerBudget.refillPacing, if_neg hsrtt]
  by_cases hzero : peer.pacingRefilledAt = 0
  · rw [if_pos (.inl hzero)]
    exact .inl ⟨hzero, rfl⟩
  · have hle : peer.pacingRefilledAt ≤ now := hord.1.resolve_left hzero
    rw [if_neg (by omega)]
    have hword : peer.congestionBudget * ccPacingGainPercent * (now - peer.pacingRefilledAt) %
        2 ^ 64 / (100 * peer.rtt.srttMicros) =
        earns peer * (now - peer.pacingRefilledAt) / perMicros peer := by
      have hfits := hord.2
      rw [earns] at hfits
      rw [Nat.mod_eq_of_lt hfits, earns, perMicros]
    rw [hword]
    by_cases hnone : now - peer.pacingRefilledAt = 0 ∨
        earns peer * (now - peer.pacingRefilledAt) / perMicros peer = 0
    · rw [if_pos hnone]
      refine .inr (.inl ⟨hle, ?_, rfl⟩)
      rcases hnone with hnone | hnone
      · rw [hnone, Nat.mul_zero]
        exact hpos
      · exact (Nat.div_eq_zero_iff_lt hpos).mp hnone
    · rw [if_neg hnone]
      exact .inr (.inr ⟨hle, rfl⟩)

theorem refillPacing_rate : earns (peer.refillPacing now) = earns peer ∧
    (peer.refillPacing now).rtt = peer.rtt := by
  rw [PeerBudget.refillPacing]
  dsimp only
  split_ifs <;> exact ⟨rfl, rfl⟩

end Refill

/-! ## Runs -/

namespace Paced

def check (s : Paced) (e : PacingCheck) : Paced :=
  let r := e.gate.allows s.peer e.now e.wireSize
  if r.2 && e.goes then ⟨r.1.spendPacing e.wireSize, s.released + e.wireSize⟩
  else ⟨r.1, s.released⟩

def bucket (s : Paced) : Bucket := ⟨s.peer.pacingTokens, s.peer.pacingRefilledAt, s.released⟩

theorem allows_eq {gate : PacingGate} {peer : PeerBudget} {now : ℕ}
    (hsrtt : peer.rtt.srttMicros ≠ 0) (hord : InOrder peer now) (wireSize : ℕ) :
    gate.allows peer now wireSize = (peer.refillPacing now,
      decide (wireSize ≤ (peer.refillPacing now).pacingTokens)) := by
  cases gate with
  | flow => simp [PacingGate.allows, PeerBudget.pacingAllows, hsrtt]
  | transfer =>
    have hagree := (refill_agree_iff hsrtt).mpr hord.1
    simp [PacingGate.allows, transferPacingAllows, hsrtt, hagree]

/-- The bytes let out so far are paid for by the way of the mark from `lo`, the mark has not
passed `hi`, and the rate is the one of `peer`. -/
structure Paid (peer : PeerBudget) (lo hi : ℕ) (s : Paced) : Prop where
  covered : s.bucket.Covered (earns peer) (perMicros peer) ccPacingBurstBytes lo
  mark : s.peer.pacingRefilledAt ≤ hi
  earns_eq : earns s.peer = earns peer
  rtt_eq : s.peer.rtt = peer.rtt

variable {peer : PeerBudget} {lo hi : ℕ} {s : Paced} {e : PacingCheck}

/-- After the refill of a check the bytes it lets out are taken off the same account. -/
theorem Paid.spend (hsrtt : peer.rtt.srttMicros ≠ 0) (hrtt : s.peer.rtt = peer.rtt)
    (hord : InOrder s.peer e.now)
    (h : Paid peer lo hi ⟨s.peer.refillPacing e.now, s.released⟩) : Paid peer lo hi (s.check e) := by
  rw [check, allows_eq (by rwa [hrtt]) hord]
  split_ifs with hgo
  · rw [Bool.and_eq_true, decide_eq_true_iff] at hgo
    exact ⟨h.covered.spend hgo.1, h.mark, h.earns_eq, h.rtt_eq⟩
  · exact h

theorem Paid.refill (hsrtt : peer.rtt.srttMicros ≠ 0) (h : Paid peer lo hi s)
    (hord : InOrder s.peer e.now) (hnow : e.now ≤ hi) :
    Paid peer lo hi ⟨s.peer.refillPacing e.now, s.released⟩ := by
  have hrate := @refillPacing_rate s.peer e.now
  have hper : perMicros s.peer = perMicros peer := by rw [perMicros, h.rtt_eq, perMicros]
  have hsrtt' : s.peer.rtt.srttMicros ≠ 0 := by rwa [h.rtt_eq]
  refine ⟨h.covered.refill ?_, ?_, hrate.1.trans h.earns_eq, hrate.2.trans h.rtt_eq⟩
  · rcases refillPacing_cases hsrtt' hord with ⟨hzero, heq⟩ | ⟨-, -, heq⟩ | ⟨hle, heq⟩
    · rw [heq]
      exact Bucket.Refills.of_mark (by simp [bucket, hzero]) rfl rfl
    · rw [heq]
      exact Bucket.Refills.refl _
    · rw [heq, h.earns_eq, hper]
      exact Bucket.Refills.of_gain hle le_rfl rfl (min_le_left _ _) rfl
  · rcases refillPacing_cases hsrtt' hord with ⟨-, heq⟩ | ⟨-, -, heq⟩ | ⟨-, heq⟩
    · rw [heq]
      exact hnow
    · rw [heq]
      exact h.mark
    · rw [heq]
      exact hnow

theorem Paid.check (hsrtt : peer.rtt.srttMicros ≠ 0) (h : Paid peer lo hi s)
    (hord : InOrder s.peer e.now) (hnow : e.now ≤ hi) : Paid peer lo hi (s.check e) :=
  Paid.spend hsrtt h.rtt_eq hord (h.refill hsrtt hord hnow)

/-- The first refill of a run settles the account: it moves the mark into the run, or what is
pending before it is less than a byte and finds room. -/
theorem paid_first (hsrtt : peer.rtt.srttMicros ≠ 0) (htokens : peer.pacingTokens ≤ ccPacingBurstBytes)
    {now : ℕ} (hord : InOrder peer now) (hpending : ¬ FractionPending peer now)
    (hlo : lo ≤ now) (hhi : now ≤ hi) : Paid peer lo hi ⟨peer.refillPacing now, 0⟩ := by
  have hrate := @refillPacing_rate peer now
  rcases refillPacing_cases hsrtt hord with ⟨-, heq⟩ | ⟨hle, hless, heq⟩ | ⟨-, heq⟩
  · refine ⟨Bucket.covered_start rfl ?_ (.inl ?_), ?_, hrate.1, hrate.2⟩
    · rw [heq]
      exact htokens
    · rw [heq]
      exact hlo
    · rw [heq]
      exact hhi
  · rw [heq]
    refine ⟨Bucket.covered_start rfl htokens ?_, hle.trans hhi, rfl, rfl⟩
    rcases Nat.le_total lo peer.pacingRefilledAt with hearly | -
    · exact .inl hearly
    right
    change earns peer * (lo - peer.pacingRefilledAt) ≤
      perMicros peer * (ccPacingBurstBytes - peer.pacingTokens)
    have hway : earns peer * (lo - peer.pacingRefilledAt) ≤
        earns peer * (now - peer.pacingRefilledAt) :=
      Nat.mul_le_mul_left _ (Nat.sub_le_sub_right hlo _)
    rcases Nat.lt_or_ge peer.pacingTokens ccPacingBurstBytes with hroom | hfull
    · have hone : perMicros peer ≤
          perMicros peer * (ccPacingBurstBytes - peer.pacingTokens) :=
        Nat.le_mul_of_pos_right _ (Nat.sub_pos_of_lt hroom)
      omega
    · by_cases hmark : peer.pacingRefilledAt = 0
      · -- a clock that was never started is set by the refill, which then changed the peer
        have hset := congrArg PeerBudget.pacingRefilledAt heq
        rw [PeerBudget.refillPacing, if_neg hsrtt, if_pos (.inl hmark)] at hset
        have hnow : now = 0 := hset.trans hmark
        have hlo' : lo - peer.pacingRefilledAt = 0 := by omega
        rw [hlo', Nat.mul_zero]
        exact Nat.zero_le _
      · have hnothing : ¬ 0 < earns peer * (now - peer.pacingRefilledAt) := fun hpos =>
          hpending ⟨le_antisymm htokens hfull, hmark, hpos, hless⟩
        omega
  · refine ⟨Bucket.covered_start rfl ?_ (.inl ?_), ?_, hrate.1, hrate.2⟩
    · rw [heq]
      exact min_le_right _ _
    · rw [heq]
      exact hlo
    · rw [heq]
      exact hhi

end Paced

/-- The two refills agree exactly while the clock does not step back, and in every run whose
checks are in order, and that does not start on a full bucket with part of a byte pending,
the bytes let out stay within a burst and the rate over the span of the checks. -/
theorem pacing_token_bucket (peer : PeerBudget) (checks : List PacingCheck)
    (hsrtt : peer.rtt.srttMicros ≠ 0) (htokens : peer.pacingTokens ≤ ccPacingBurstBytes) :
    (∀ now, peer.refillPacing now = refillTransferPacing peer now ↔
        peer.pacingRefilledAt = 0 ∨ peer.pacingRefilledAt ≤ now) ∧
      (Along Paced.check (fun s e => InOrder s.peer e.now) ⟨peer, 0⟩ checks →
        (∀ e ∈ checks.head?, ¬ FractionPending peer e.now) →
        ∀ lo hi, (∀ e ∈ checks, lo ≤ e.now ∧ e.now ≤ hi) →
          100 * peer.rtt.srttMicros * (run Paced.check ⟨peer, 0⟩ checks).released ≤
            100 * peer.rtt.srttMicros * ccPacingBurstBytes +
              125 * peer.congestionBudget * (hi - lo)) := by
  refine ⟨fun now => refill_agree_iff hsrtt, ?_⟩
  intro hord hpending lo hi hspan
  cases checks with
  | nil => exact Nat.zero_le _
  | cons first checks =>
    obtain ⟨hlo, hhi⟩ := hspan first List.mem_cons_self
    have hfirst : Paced.Paid peer lo hi (Paced.check ⟨peer, 0⟩ first) :=
      Paced.Paid.spend hsrtt rfl hord.1
        (Paced.paid_first hsrtt htokens hord.1 (hpending first rfl) hlo hhi)
    have hrest : Along Paced.check (fun s e => InOrder s.peer e.now ∧ e.now ≤ hi)
        (Paced.check ⟨peer, 0⟩ first) checks := by
      have hlate := along_of_forall Paced.check
        (fun e he => (hspan e (List.mem_cons_of_mem first he)).2) (Paced.check ⟨peer, 0⟩ first)
      exact along_and Paced.check hord.2 hlate
    have hpaid := run_invariant Paced.check (Paced.Paid peer lo hi) _
      (fun s e hok h => h.check hsrtt hok.1 hok.2) hfirst hrest
    have hbound := hpaid.covered.spent_le hpaid.mark
    rw [perMicros, earns, ccPacingGainPercent, Nat.mul_comm peer.congestionBudget] at hbound
    exact hbound

/-- Two gates a millisecond apart on a 10 ms path with a budget of ten packets. -/
theorem pacing_token_bucket_in_order :
    let peer : PeerBudget := ⟨⟨10000, 1000, 0, 10000, 1⟩, 12000, 0, 0, 0, 0, 2400, 500⟩
    let checks : List PacingCheck := [⟨.flow, 1000, 1200, true⟩, ⟨.transfer, 2000, 1200, true⟩]
    Along Paced.check (fun s e => InOrder s.peer e.now) ⟨peer, 0⟩ checks ∧
      1000000 * (run Paced.check ⟨peer, 0⟩ checks).released ≤
        1000000 * ccPacingBurstBytes + 1500000 * (2000 - 1000) := by
  intro peer checks
  have hord : Along Paced.check (fun s e => InOrder s.peer e.now) ⟨peer, 0⟩ checks := by
    decide +kernel
  have hpending : ∀ e ∈ checks.head?, ¬ FractionPending peer e.now := by decide +kernel
  exact ⟨hord, (pacing_token_bucket peer checks (by decide) (by decide)).2 hord hpending 1000 2000
    (by decide)⟩

/-- Two threads whose clock reads are applied in turn: each step back lets the same two
milliseconds be earned again, and three bursts leave where the rate allows for two.  The
transfer's refill keeps the mark where the flow's moves it back. -/
theorem pacing_earns_twice :
    let peer : PeerBudget := ⟨⟨10000, 1000, 0, 10000, 1⟩, 12000, 0, 0, 0, 0, 0, 1000⟩
    let swing : List PacingCheck :=
      [⟨.flow, 3000, 2400, true⟩, ⟨.flow, 1000, 2400, true⟩]
    let released := (run Paced.check ⟨peer, 0⟩ (swing ++ swing ++ swing)).released
    released = 7200 ∧
      1000000 * ccPacingBurstBytes + 125 * 12000 * (3000 - 1000) < 1000000 * released ∧
      (peer.refillPacing 500).pacingRefilledAt = 500 ∧
      (refillTransferPacing peer 500).pacingRefilledAt = 1000 := by
  decide +kernel

end BcpFlux.Socket
