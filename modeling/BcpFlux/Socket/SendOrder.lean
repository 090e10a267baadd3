import BcpFlux.Socket.LaneOrder

/-! # The order of the sequences

The messages of a lane stand in line in the order of their calls, and the stamps are taken
off the front of the line.  So the order of the calls is the order of the stamps; as
numbers the sequences follow it until they wrap.
-/

namespace BcpFlux.Socket
open Library Wire BcpFlux.Flow Peer OutAssociation

namespace Lane

variable {l : Lane} {mode : FlowMode}

/-- In a list of lists whose elements increase, a smaller element stands in an earlier
list, or earlier in the same one. -/
theorem position_lt {lists : List (List ℕ)} (h : lists.flatten.Pairwise (· < ·)) {i j p q : ℕ}
    {a b : List ℕ} {m n : ℕ} (hi : lists[i]? = some a) (hj : lists[j]? = some b)
    (hp : a[p]? = some m) (hq : b[q]? = some n) (hlt : m < n) : i < j ∨ i = j ∧ p < q := by
  obtain ⟨hwithin, hacross⟩ := List.pairwise_flatten.mp h
  obtain ⟨hi', rfl⟩ := List.getElem?_eq_some_iff.mp hi
  obtain ⟨hj', rfl⟩ := List.getElem?_eq_some_iff.mp hj
  rcases Nat.lt_trichotomy i j with hij | rfl | hji
  · exact Or.inl hij
  · obtain ⟨hp', rfl⟩ := List.getElem?_eq_some_iff.mp hp
    obtain ⟨hq', rfl⟩ := List.getElem?_eq_some_iff.mp hq
    refine Or.inr ⟨rfl, ?_⟩
    have hrow := List.pairwise_iff_getElem.mp (hwithin _ (List.getElem_mem hi'))
    rcases Nat.lt_trichotomy p q with hpq | rfl | hqp
    · exact hpq
    · exact absurd hlt (Nat.lt_irrefl _)
    · exact absurd (hrow q p hq' hp' hqp) (Nat.lt_asymm hlt)
  · have hrows := List.pairwise_iff_getElem.mp hacross j i hj' hi' hji
    have hback := hrows n (List.mem_of_getElem? hq) m (List.mem_of_getElem? hp)
    exact absurd hback (Nat.lt_asymm hlt)

theorem Inv.position_lt (h : l.Inv mode) {i j p q m m' : ℕ} {stamp stamp' : ℕ × List ℕ}
    (hi : l.stamps[i]? = some stamp) (hj : l.stamps[j]? = some stamp')
    (hp : stamp.2[p]? = some m) (hq : stamp'.2[q]? = some m') (hlt : m < m') :
    i < j ∨ i = j ∧ p < q := by
  have hsorted : (l.stamps.map Prod.snd).flatten.Pairwise (· < ·) := by
    rw [← List.flatMap_def]
    exact h.logged.sorted.sublist h.carried_sublist
  apply Lane.position_lt hsorted _ _ hp hq hlt
  · rw [List.getElem?_map, hi]
    rfl
  · rw [List.getElem?_map, hj]
    rfl

/-- On a lane to an established peer whose kernel takes what it is handed, a message sent
earlier got an earlier sequence, or an earlier place in the same packet; and until the
sequences wrap, the earlier sequence is the smaller number. -/
theorem send_order_is_sequence_order (timers : FlowTimers) (mode : FlowMode) (events : List Event)
    (htakes : Along (step timers) KernelTakes (init mode true) events) :
    let l := run (step timers) (init mode true) events
    ∀ (i j p q m m' : ℕ) (stamp stamp' : ℕ × List ℕ),
      l.stamps[i]? = some stamp → l.stamps[j]? = some stamp' →
      stamp.2[p]? = some m → stamp'.2[q]? = some m' → m < m' →
      (i < j ∨ i = j ∧ p < q) ∧
        (l.stamps.length < 2 ^ 32 → stamp.1 < stamp'.1 ∨ stamp.1 = stamp'.1 ∧ p < q) := by
  intro l i j p q m m' stamp stamp' hi hj hp hq hlt
  have hinv : l.Inv mode := run_inv timers (Or.inr rfl) htakes
  have hplace := hinv.position_lt hi hj hp hq hlt
  refine ⟨hplace, fun hwrap => ?_⟩
  have hi' := (List.getElem?_eq_some_iff.mp hi).1
  have hj' := (List.getElem?_eq_some_iff.mp hj).1
  rw [hinv.keeps.line.numbered i stamp hi, hinv.keeps.line.numbered j stamp' hj,
    nthSeq_eq (by omega), nthSeq_eq (by omega)]
  omega

/-- Two messages batched into one packet behind a first one that went out alone. -/
theorem send_order_is_sequence_order_batched :
    let timers : FlowTimers := ⟨100000, 25000, 30000000⟩
    let budget : PeerBudget := ⟨⟨0, 0, 0, 0, 0⟩, 100000, 0, 0, 0, 0, 100000, 0⟩
    let params : OutAssocParams := ⟨0, ⟨[1], 0, 9⟩, ⟨[1]⟩, 7, .reliableOrdered, 1, 4⟩
    let c : LaneChoices := ⟨3, true, true, true, true, params, 0, budget, 5⟩
    let a : Answers := ⟨false, c, c, true, true⟩
    let packet : Datagram :=
      (buildPacket .encrypted false (some ⟨7, .reliableOrdered, 0, .whole⟩) [1, 2, 3]).getD []
    let events : List Event :=
      [.send packet a, .send packet a, .send packet a, .takeBatch true, .admitBatch c, .settle true]
    let l := run (step timers) (init .reliableOrdered true) events
    Along (step timers) KernelTakes (init .reliableOrdered true) events ∧
      l.stamps = [(1, [0]), (2, [1, 2])] ∧
      (0 < 1 ∨ 0 = 1 ∧ 0 < 1) ∧ (1 < 2 ∨ 1 = 2 ∧ 0 < 1) := by
  intro timers budget params c a packet events l
  have htakes : Along (step timers) KernelTakes (init .reliableOrdered true) events := by
    decide +kernel
  have hstamps : l.stamps = [(1, [0]), (2, [1, 2])] := by
    decide +kernel
  have horder := send_order_is_sequence_order timers .reliableOrdered events htakes 0 1 0 1 0 2
    (1, [0]) (2, [1, 2]) (by rw [hstamps]; rfl) (by rw [hstamps]; rfl) rfl rfl (by decide)
  have hlength : l.stamps.length < 2 ^ 32 := by
    rw [hstamps]
    decide
  exact ⟨htakes, hstamps, horder.1, horder.2 hlength⟩

/-! ## Past the wrap

A message is sent, flushed and acknowledged over and over, on an association that never
fills its window. -/

namespace Wrap

def timers : FlowTimers := ⟨100000, 25000, 30000000⟩
def params : OutAssocParams := ⟨0, ⟨[1], 0, 9⟩, ⟨[1]⟩, 7, .reliableUnordered, 1, 4⟩
def choices : LaneChoices :=
  ⟨3, true, true, true, true, params, 0, ⟨⟨0, 0, 0, 0, 0⟩, 100000, 0, 0, 0, 0, 100000, 0⟩, 0⟩
def answers : Answers := ⟨false, choices, choices, true, true⟩
def packet : Datagram :=
  (buildPacket .encrypted false (some ⟨7, .reliableUnordered, 0, .whole⟩) [1]).getD []

def acked (seq : ℕ) : Event := .ack ⟨0, 0, 0, 0, 0⟩ ⟨7, 1, 1, 0, [⟨seq, seq⟩]⟩ 0

def flow (seq : ℕ) : OutAssociation := { resetOutAssoc 0 params 0 with nextSeq := seq }

def flying (seq : ℕ) : OutAssociation :=
  ((flow seq).stamp choices.budget (some 3) packet.length true 0).1

def idle (flow : OutAssociation) (calls : ℕ) (stamps : List (ℕ × List ℕ)) : Lane :=
  { init .reliableUnordered true with
    assoc := some flow
    calls := calls
    accepted := List.range calls
    stamps := stamps }

def openBatch (inFlight : Bool) : OpenBatch :=
  ⟨packet, packet.contentOffset, 1, packet.length - packet.contentOffset, inFlight⟩

def holding (flow : OutAssociation) (calls : ℕ) (phase : Option FlushPhase)
    (stamps : List (ℕ × List ℕ)) : Lane :=
  { init .reliableUnordered true with
    assoc := some flow
    batch := openBatch phase.isSome
    batched := [calls]
    flush := phase.map fun reached => ⟨packet, [calls], reached⟩
    calls := calls + 1
    accepted := List.range calls ++ [calls]
    stamps := stamps }

theorem step_send (seq calls : ℕ) (stamps : List (ℕ × List ℕ)) :
    step timers (idle (flow seq) calls stamps) (.send packet answers) =
      holding (flow seq) calls none stamps := rfl

theorem step_take (flow : OutAssociation) (calls : ℕ) (stamps : List (ℕ × List ℕ)) :
    step timers (holding flow calls none stamps) (.takeBatch true) =
      holding flow calls (some .taken) stamps := rfl

theorem step_admit (seq calls : ℕ) (stamps : List (ℕ × List ℕ)) :
    step timers (holding (flow seq) calls (some .taken) stamps) (.admitBatch choices) =
      holding (flying seq) calls (some .sealed) (stamps ++ [(seq, [calls])]) := rfl

theorem step_settle (flow : OutAssociation) (calls : ℕ) (stamps : List (ℕ × List ℕ)) :
    step timers (holding flow calls (some .sealed) stamps) (.settle true) =
      idle flow (calls + 1) stamps := by
  rw [idle, List.range_succ]
  rfl

def cell (seq : ℕ) : InFlightEntry :=
  (flow seq).stampedEntry choices.budget (some 3) packet.length true 0

theorem ackCell_cell {seq : ℕ} (hseq : seq ≠ 0) (acc : OutAssociation.AckScan)
    (hacc : acc.resolved.unresolved = 1) :
    (ackCell .reliableUnordered 1 [⟨seq, seq⟩] (cell seq) acc).1 = .free ∧
      (ackCell .reliableUnordered 1 [⟨seq, seq⟩] (cell seq) acc).2.resolved.unresolved
        = 0 := by
  have hseq' : (cell seq).seq = seq := rfl
  have hrange : seqInRanges seq [⟨seq, seq⟩] = true := by
    simp [seqInRanges]
  rw [ackCell, hseq', if_neg hseq, if_pos (Or.inr hrange)]
  have hopen : ¬ ((cell seq).seq = 0 ∨ (cell seq).acked = true) := by
    rintro (hzero | hacked)
    · exact hseq hzero
    · cases hacked
  rw [resolveOutEntry, if_neg hopen]
  exact ⟨rfl, by simp [hacc, isOrdered]⟩

theorem resolveAcked_flying {seq : ℕ} (hseq : seq ≠ 0) :
    ((flying seq).resolveAcked ⟨7, 1, 1, 0, [⟨seq, seq⟩]⟩ .zero).1 = flow (succSeq seq) := by
  have hcap : IsPow2 256 := ⟨8, rfl⟩
  have hscan := scan_single (ackCell .reliableUnordered 1 [⟨seq, seq⟩])
    (flying seq).inFlight ⟨⟨1, .zero, []⟩, none, none⟩ (hcap.slot_lt seq) (by
      intro i _ hi b
      have hfree : (flying seq).inFlight i = .free := put_of_ne _ _ hi
      rw [hfree]
      rfl)
  have hcell : (flying seq).inFlight (slot 256 seq) = cell seq := put_self _ _ _ _
  obtain ⟨hfreed, hunresolved⟩ :=
    ackCell_cell hseq ⟨⟨1, .zero, []⟩, none, none⟩ rfl
  rw [hcell, hfreed] at hscan
  have hring : Function.update (flying seq).inFlight (slot 256 seq) .free = fun _ => .free := by
    funext i
    by_cases hi : i = slot 256 seq
    · rw [hi, Function.update_self]
    · rw [Function.update_of_ne hi]
      exact put_of_ne _ _ hi
  rw [hring] at hscan
  have hkind : (flying seq).mode = .reliableUnordered := rfl
  have hwindow : (flying seq).inflightCap = 256 := rfl
  have howed : (flying seq).unresolved = 1 := rfl
  rw [resolveAcked, hkind, hwindow, howed]
  rw [hscan]
  rw [hunresolved]
  rfl

theorem ack_flying {seq : ℕ} (hseq : seq ≠ 0) :
    ((flying seq).applyAck timers ⟨0, 0, 0, 0, 0⟩ ⟨7, 1, 1, 0, [⟨seq, seq⟩]⟩ 0 .zero).1 =
      flow (succSeq seq) := by
  rw [applyAck, if_pos ⟨rfl, rfl⟩]
  dsimp only
  rw [resolveAcked_flying hseq]
  have hlost : ∀ largest delta, ((flow (succSeq seq)).judgeLoss largest 0
      (RttEstimate.lossDelayMicros ⟨0, 0, 0, 0, 0⟩ timers.retryIntervalMicros) delta).1 =
      flow (succSeq seq) := by
    intro largest delta
    cases largest with
    | none => rfl
    | some n =>
      have hkind : ({ flow (succSeq seq) with lastResolvedMicros := 0 } : OutAssociation).mode ≠
          .unreliable := by
        simp [flow, resetOutAssoc, params]
      have hscan := scan_id (lostCell n 0
        (RttEstimate.lossDelayMicros ⟨0, 0, 0, 0, 0⟩ timers.retryIntervalMicros))
        (flow (succSeq seq)).inFlight delta (n := (flow (succSeq seq)).inflightCap)
        fun i _ b => rfl
      rw [judgeLoss, declareLostBelow, if_neg hkind]
      rw [hscan]
      rfl
  rw [hlost]
  have hbase : ¬ ((flow (succSeq seq)).ackBase ≠ (flow (succSeq seq)).nextSeq ∧
      (flow (succSeq seq)).ackBase < 1) := by
    simp [flow, resetOutAssoc]
  have hwindow : (flow (succSeq seq)).inflightCap = 255 + 1 := rfl
  rw [hwindow, releaseAckedRun, if_neg hbase]

/-- A message is sent, flushed and acknowledged. -/
def round (seq : ℕ) : List Event :=
  [.send packet answers, .takeBatch true, .admitBatch choices, .settle true, acked seq]

theorem step_acked {seq : ℕ} (hseq : seq ≠ 0) (calls : ℕ) (stamps : List (ℕ × List ℕ)) :
    step timers (idle (flying seq) calls stamps) (acked seq) =
      idle (flow (succSeq seq)) calls stamps := by
  rw [← ack_flying hseq]
  rfl

theorem round_idle {seq : ℕ} (hseq : seq ≠ 0) (calls : ℕ) (stamps : List (ℕ × List ℕ)) :
    run (step timers) (idle (flow seq) calls stamps) (round seq) =
      idle (flow (succSeq seq)) (calls + 1) (stamps ++ [(seq, [calls])]) := by
  simp only [round, run_cons, run_nil]
  rw [step_send, step_take, step_admit, step_settle, step_acked hseq]

/-- The first message makes the association and goes out on its own. -/
def events (n : ℕ) : List Event :=
  [.send packet answers, acked 1] ++ (List.range n).flatMap fun k => round (nthSeq (k + 1))

theorem run_events (n : ℕ) :
    run (step timers) (init .reliableUnordered true) (events n) =
      idle (flow (nthSeq (n + 1))) (n + 1) ((List.range (n + 1)).map fun k => (nthSeq k, [k])) := by
  induction n with
  | zero =>
    have hsent : step timers (init .reliableUnordered true) (.send packet answers) =
        idle (flying 1) 1 [(1, [0])] := rfl
    simp only [events, List.range_zero, List.flatMap_nil, List.append_nil, run_cons, run_nil]
    rw [hsent, step_acked Nat.one_ne_zero]
    rfl
  | succ n ih =>
    have hsplit : events (n + 1) = events n ++ round (nthSeq (n + 1)) := by
      simp [events, List.range_succ]
    rw [hsplit, run_append, ih, round_idle (nthSeq_ne_zero (n + 1)), ← nthSeq_succ,
      List.range_succ (n := n + 1), List.map_append]
    rfl

theorem stamps_events {n k : ℕ} (hk : k ≤ n) :
    (run (step timers) (init .reliableUnordered true) (events n)).stamps[k]? =
      some (nthSeq k, [k]) := by
  rw [run_events]
  simp only [idle]
  rw [List.getElem?_map, List.getElem?_range (by omega)]
  rfl

theorem accepted_events (n : ℕ) :
    (run (step timers) (init .reliableUnordered true) (events n)).accepted = List.range (n + 1) := by
  rw [run_events]
  rfl

theorem takes_events (n : ℕ) :
    Along (step timers) KernelTakes (init .reliableUnordered true) (events n) := by
  have htakes : ∀ e ∈ events n, (init .reliableUnordered true).KernelTakes e := by
    intro e he
    have hround : e ∈ [.send packet answers, acked 1] ∨ ∃ k, e ∈ round (nthSeq (k + 1)) := by
      simp only [events, List.mem_append, List.mem_flatMap] at he
      exact he.imp_right fun ⟨k, _, hk⟩ => ⟨k, hk⟩
    rcases hround with hfirst | ⟨k, hk⟩
    · simp only [List.mem_cons, List.not_mem_nil, or_false] at hfirst
      rcases hfirst with rfl | rfl
      · exact ⟨rfl, rfl⟩
      · trivial
    · simp only [round, List.mem_cons, List.not_mem_nil, or_false] at hk
      rcases hk with rfl | rfl | rfl | rfl | rfl
      · exact ⟨rfl, rfl⟩
      · trivial
      · trivial
      · rfl
      · trivial
  exact along_of_forall (step timers) htakes _

theorem stamps_last {n : ℕ} (hn : n + 1 = 2 ^ 32) :
    (run (step timers) (init .reliableUnordered true) (events n)).stamps[n]? = some (1, [n]) := by
  rw [stamps_events (Nat.le_refl n), nthSeq_wraps hn]

end Wrap

/-- The first message and the one `2 ^ 32 - 1` calls later are carried by the same sequence. -/
theorem wrapped_sequence_comes_again :
    let l := run (step Wrap.timers) (init .reliableUnordered true) (Wrap.events (2 ^ 32 - 1))
    Along (step Wrap.timers) KernelTakes (init .reliableUnordered true)
      (Wrap.events (2 ^ 32 - 1)) ∧
    l.accepted = List.range (2 ^ 32 - 1 + 1) ∧
    l.stamps[0]? = some (1, [0]) ∧ l.stamps[2 ^ 32 - 1]? = some (1, [2 ^ 32 - 1]) :=
  ⟨Wrap.takes_events _, Wrap.accepted_events _, Wrap.stamps_events (Nat.zero_le _),
    Wrap.stamps_last (by norm_num)⟩

end Lane

end BcpFlux.Socket
