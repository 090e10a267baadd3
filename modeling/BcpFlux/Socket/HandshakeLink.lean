import BcpFlux.Library.Runs
import BcpFlux.Socket.Handshake

/-! # Two honest sockets and the network between them

The network holds the handshake messages in flight and loses, duplicates and reorders
them at will.  An initiator takes an answer only if its code covers the initiator's own
current attempt, so what both ends agree on is decided by when a responder replaces the
session it has already answered with.
-/

namespace BcpFlux.Socket
open Library Crypto

structure HsPacket (Mac : Type) where
  dest : Bool
  message : HsMessage Mac
deriving DecidableEq

structure HsLink (Mac : Type) where
  node : Bool → HsNode Mac
  net : List (HsPacket Mac)

inductive HsEvent where
  | connect (side registers : Bool)
  | retry (side : Bool)
  /-- The `i`-th message in flight arrives. -/
  | deliver (i : ℕ) (c : HsChoices)
  | duplicate (i : ℕ)
  | drop (i : ℕ)
  | confirm (side : Bool)
deriving DecidableEq, Repr

section Machine
variable {Mac : Type} [DecidableEq Mac] (suite : HandshakeSuite Mac)

def HsNode.session? (me : HsNode Mac) : Option Key :=
  match me.entry with
  | none => none
  | some e => if e.state = .established then some e.session else none

/-- `Handshake_Complete` would take this answer. -/
def HsNode.wouldAccept (me : HsNode Mac) (f : HsFinish Mac) : Bool :=
  match me.entry with
  | none => false
  | some e => me.accepts suite e f

/-- The message opens a new entry, re-keys one that is not confirmed, or wins over the
attempt of this side. -/
def HsNode.wouldCommit (me : HsNode Mac) (r : HsRes) (c : HsChoices) : Bool :=
  c.cookieOk && c.random && match me.entry with
    | none => c.registers
    | some e =>
      if e.state = .established then
        decide (e.id = some (suite.deriveId r.pk)) && decide (e.hsPeerEph ≠ r.eph) && !e.confirmed
      else bytesLt r.pk me.publicKey

namespace HsLink
variable (s : HsLink Mac)

/-- One socket becomes `me`, and a message may leave it. -/
def put (me : HsNode Mac) (side : Bool) (net : List (HsPacket Mac))
    (out : Option (HsMessage Mac)) : HsLink Mac where
  node := Function.update s.node side me
  net := net ++ (out.map fun m => ⟨!side, m⟩).toList

def step : HsEvent → HsLink Mac
  | .connect side registers =>
    let r := (s.node side).connect suite registers
    s.put r.1 side s.net (if r.2 then some .init else none)
  | .retry side =>
    let r := (s.node side).retry
    s.put r.1 side s.net (if r.2 then some .init else none)
  | .deliver i c =>
    match s.net[i]? with
    | none => s
    | some p =>
      let r := (s.node p.dest).handle suite p.message c
      s.put r.1 p.dest (s.net.eraseIdx i) r.2
  | .duplicate i => { s with net := s.net ++ (s.net[i]?).toList }
  | .drop i => { s with net := s.net.eraseIdx i }
  | .confirm side => s.put (s.node side).confirm side s.net none

/-- No answer in flight that this side would take. -/
def unanswered (side : Bool) : Bool :=
  s.net.all fun p => match p.message with
    | .finish f => p.dest != side || !(s.node side).wouldAccept suite f
    | _ => true

/-- An `HS_RES` is about to replace a session that its sender has, or is about to have. -/
def disturbs : HsEvent → Bool
  | .deliver i c => match s.net[i]? with
    | some ⟨dest, .res r⟩ => (s.node dest).wouldCommit suite r c &&
      ((s.node !dest).session?.isSome || !s.unanswered suite (!dest))
    | _ => false
  | _ => false

def Undisturbed (e : HsEvent) : Prop := s.disturbs suite e = false

instance (e : HsEvent) : Decidable (s.Undisturbed suite e) :=
  inferInstanceAs (Decidable (_ = false))

end HsLink

end Machine

/-! ## Answers -/

section Agreement
variable {Mac : Type} {suite : HandshakeSuite Mac}

/-- The answer was made by `other` for an attempt of `me`, and confirms the key `k`. -/
def Answers (suite : HandshakeSuite Mac) (me other : HsNode Mac) (f : HsFinish Mac) (k : Key) :
    Prop :=
  ∃ i < me.generated, ∃ secret t,
    t.initiatorPk = me.publicKey ∧ t.responderPk = other.publicKey ∧
    t.initiatorEph = suite.publicOf (suite.ephemeral me.side i) ∧
    t.responderEph = suite.publicOf secret ∧
    k = suite.deriveSessionKey (suite.sharedSecret other.secretKey me.publicKey)
      (suite.sharedSecret secret t.initiatorEph) t ∧
    f.confirm = suite.computeMac k t

structure SameNode (me me' : HsNode Mac) : Prop where
  side_eq : me'.side = me.side
  secretKey_eq : me'.secretKey = me.secretKey
  publicKey_eq : me'.publicKey = me.publicKey
  version_eq : me'.version = me.version
  generated_le : me.generated ≤ me'.generated

theorem SameNode.refl (me : HsNode Mac) : SameNode me me := ⟨rfl, rfl, rfl, rfl, Nat.le_refl _⟩

variable {me me' other : HsNode Mac} {f : HsFinish Mac} {k : Key}

theorem Answers.mono {other' : HsNode Mac}
    (h : Answers suite me other f k) (hme : SameNode me me') (hother : SameNode other other') :
    Answers suite me' other' f k := by
  obtain ⟨i, hi, secret, t, hpk, hrpk, heph, hreph, hk, hmac⟩ := h
  refine ⟨i, Nat.lt_of_lt_of_le hi hme.generated_le, secret, t, ?_, ?_, ?_, hreph, ?_, hmac⟩
  · rw [hme.publicKey_eq]
    exact hpk
  · rw [hother.publicKey_eq]
    exact hrpk
  · rw [hme.side_eq]
    exact heph
  · rw [hother.secretKey_eq, hme.publicKey_eq]
    exact hk

/-- The attempt an entry waits on: none yet, or one of the generated ones. -/
def AttemptOf (suite : HandshakeSuite Mac) (me : HsNode Mac) (e : HsEntry Mac) : Prop :=
  e.hsEphPub = zeroKey ∨ ∃ i < me.generated, e.hsEphSecret = suite.ephemeral me.side i ∧
    e.hsEphPub = suite.publicOf (suite.ephemeral me.side i)

variable {e : HsEntry Mac} {r : HsRes}

theorem committed_answers {i : ℕ}
    {salt : Key} (hi : i < other.generated) (hpk : r.pk = other.publicKey)
    (heph : r.eph = suite.publicOf (suite.ephemeral other.side i)) (hsame : SameNode me me')
    (secret : Key) :
    Answers suite other me' (me'.answer (me.committed suite e r secret salt))
      (me.committed suite e r secret salt).session := by
  refine ⟨i, hi, secret, me.responderTranscript r (suite.publicOf secret) salt, hpk,
    hsame.publicKey_eq.symm, heph, rfl, ?_, rfl⟩
  rw [hsame.secretKey_eq, ← hpk]
  rfl

theorem judgeRes_again {c : HsChoices}
    (hj : me.judgeRes suite r c = .again e) :
    me.entry = some e ∧ e.state = .established ∧ e.hsPeerEph = r.eph := by
  rw [HsNode.judgeRes] at hj
  split at hj
  · split at hj <;> cases hj
  next e₀ he =>
  split at hj
  next hstate =>
    split at hj
    · split at hj <;> cases hj
    split at hj
    next heph =>
      cases hj
      exact ⟨he, hstate, heph⟩
    · split at hj <;> cases hj
  · split at hj <;> cases hj

theorem wouldCommit_of_judgeRes {c : HsChoices}
    (hcookie : c.cookieOk = true) (hrandom : c.random = true)
    (hj : me.judgeRes suite r c = .commit e) : me.wouldCommit suite r c = true := by
  rw [HsNode.judgeRes] at hj
  rw [HsNode.wouldCommit, hcookie, hrandom]
  cases hentry : me.entry with
  | none =>
    rw [hentry] at hj
    dsimp only at hj
    split at hj
    · next hregisters => simpa using hregisters
    · cases hj
  | some e₀ =>
    rw [hentry] at hj
    dsimp only at hj
    split at hj
    · next hstate =>
      split at hj
      · split at hj <;> cases hj
      split at hj
      · cases hj
      split at hj
      · cases hj
      simp_all
    · next hstate =>
      split at hj
      · cases hj
      simp_all

theorem AttemptOf.mono (h : AttemptOf suite me e)
    (hsame : SameNode me me') : AttemptOf suite me' e := by
  rcases h with hzero | ⟨i, hi, hsecret, hpub⟩
  · exact .inl hzero
  · rw [← hsame.side_eq] at hsecret hpub
    exact .inr ⟨i, Nat.lt_of_lt_of_le hi hsame.generated_le, hsecret, hpub⟩

theorem session?_eq_none_iff :
    me.session? = none ↔ ∀ e, me.entry = some e → e.state ≠ .established := by
  rw [HsNode.session?]
  split
  · next hnone => simp [hnone]
  · next e hsome => simp [hsome]

theorem session?_of_waiting (he : me.entry = some e)
    (hstate : e.state ≠ .established) : me.session? = none := by
  simp [HsNode.session?, he, hstate]

theorem session?_of_established (he : me.entry = some e)
    (hstate : e.state = .established) : me.session? = some e.session := by
  simp [HsNode.session?, he, hstate]

variable [DecidableEq Mac]

theorem accepts_iff :
    me.accepts suite e f = true ↔ e.state ≠ .established ∧
      suite.computeMac (me.finishSession suite e f) (me.initiatorTranscript e f) = f.confirm := by
  simp [HsNode.accepts]

theorem accepts_transcript
    (h : Answers suite me other f k) (hacc : me.accepts suite e f = true) :
    ∃ i < me.generated, ∃ secret,
      e.hsEphPub = suite.publicOf (suite.ephemeral me.side i) ∧
      f.pk = other.publicKey ∧ f.eph = suite.publicOf secret ∧
      k = suite.deriveSessionKey (suite.sharedSecret other.secretKey me.publicKey)
        (suite.sharedSecret secret e.hsEphPub) (me.initiatorTranscript e f) := by
  obtain ⟨i, hi, secret, t, hpk, hrpk, heph, hreph, hk, hmac⟩ := h
  have ht : me.initiatorTranscript e f = t :=
    suite.mac_inj _ _ _ _ ((accepts_iff.mp hacc).2.trans hmac)
  subst ht
  exact ⟨i, hi, secret, heph, hrpk, hreph, hk⟩

theorem finishSession_eq
    (hme : me.publicKey = suite.publicOf me.secretKey)
    (hother : other.publicKey = suite.publicOf other.secretKey)
    (hattempt : AttemptOf suite me e) (h : Answers suite me other f k)
    (hacc : me.accepts suite e f = true) : me.finishSession suite e f = k := by
  obtain ⟨i, hi, secret, heph, hpk, hreph, hk⟩ := accepts_transcript h hacc
  have hpair : e.hsEphPub = suite.publicOf e.hsEphSecret := by
    rcases hattempt with hzero | ⟨j, -, hsecret, hpub⟩
    · exact absurd (heph.symm.trans hzero) (suite.ephemeral_ne me.side i)
    · rw [hpub, hsecret]
  have hstatic : suite.sharedSecret me.secretKey f.pk =
      suite.sharedSecret other.secretKey me.publicKey := by
    rw [hpk, hother, hme]
    exact suite.shared_comm _ _
  have heach : suite.sharedSecret e.hsEphSecret f.eph = suite.sharedSecret secret e.hsEphPub := by
    rw [hreph, hpair]
    exact suite.shared_comm _ _
  rw [HsNode.finishSession, HsNode.deriveSession, hstatic, heach, hk]

/-! ## The invariant of the pair -/

/-- What holds of one socket towards the other, and of what is in flight to it. -/
structure SideInv (suite : HandshakeSuite Mac) (me other : HsNode Mac)
    (net : List (HsPacket Mac)) : Prop where
  publicKey_eq : me.publicKey = suite.publicOf me.secretKey
  id : ∀ e, me.entry = some e → (e.id = none ∧ e.state ≠ .established) ∨
    e.id = some (suite.deriveId other.publicKey)
  attempt : ∀ e, me.entry = some e → e.state ≠ .established →
    e.hsPeerEph = zeroKey ∧ AttemptOf suite me e
  answered : ∀ e, me.entry = some e → e.hsPeerEph ≠ zeroKey →
    Answers suite other me (me.answer e) e.session
  res : ∀ r, ⟨me.side, .res r⟩ ∈ net → r.pk = other.publicKey ∧
    ∃ i < other.generated, r.eph = suite.publicOf (suite.ephemeral other.side i)
  finish : ∀ f, ⟨me.side, .finish f⟩ ∈ net → ∃ k, Answers suite me other f k ∧
    (me.wouldAccept suite f = true → other.session? = some k)

structure PairInv (suite : HandshakeSuite Mac) (me other : HsNode Mac)
    (net : List (HsPacket Mac)) : Prop where
  mine : SideInv suite me other net
  theirs : SideInv suite other me net
  sides : other.side = !me.side
  agree : ∀ k k', me.session? = some k → other.session? = some k' → k = k'

theorem PairInv.symm {net : List (HsPacket Mac)}
    (h : PairInv suite me other net) : PairInv suite other me net :=
  ⟨h.theirs, h.mine, by rw [h.sides, Bool.not_not], fun k k' hk hk' => (h.agree k' k hk' hk).symm⟩

/-- A message the socket may put into the network. -/
def MaySay (suite : HandshakeSuite Mac) (me other : HsNode Mac) : HsMessage Mac → Prop
  | .init | .challenge => True
  | .res r => r.pk = me.publicKey ∧
    ∃ i < me.generated, r.eph = suite.publicOf (suite.ephemeral me.side i)
  | .finish f => ∃ k, Answers suite other me f k ∧ me.session? = some k

omit [DecidableEq Mac] in
theorem maySay_none (m : HsMessage Mac) (h : none = some m) :
    MaySay suite me other m :=
  nomatch h

omit [DecidableEq Mac] in
theorem maySay_init {out : Option (HsMessage Mac)}
    (hout : ∀ m, out = some m → m = .init) (m : HsMessage Mac) (h : out = some m) :
    MaySay suite me other m := by
  rw [hout m h]
  trivial

/-- Everything one handler of one socket can do: the entry stays well formed, no old answer
becomes acceptable, and a session the other side is about to take stands. -/
structure Move (suite : HandshakeSuite Mac) (me other : HsNode Mac) (net : List (HsPacket Mac))
    (me' : HsNode Mac) (out : Option (HsMessage Mac)) : Prop where
  same : SameNode me me'
  id : ∀ e, me'.entry = some e → (e.id = none ∧ e.state ≠ .established) ∨
    e.id = some (suite.deriveId other.publicKey)
  attempt : ∀ e, me'.entry = some e → e.state ≠ .established →
    e.hsPeerEph = zeroKey ∧ AttemptOf suite me' e
  answered : ∀ e, me'.entry = some e → e.hsPeerEph ≠ zeroKey →
    Answers suite other me' (me'.answer e) e.session
  quiet : ∀ f k, Answers suite me other f k → me'.wouldAccept suite f = true →
    me.wouldAccept suite f = true
  stands : ∀ f, ⟨other.side, .finish f⟩ ∈ net → other.wouldAccept suite f = true →
    me'.session? = me.session?
  agree : ∀ k k', me'.session? = some k → other.session? = some k' → k = k'
  sent : ∀ m, out = some m → MaySay suite me' other m

/-- Moves keep the invariant, with any part of the old messages still in flight. -/
theorem PairInv.move {net net' : List (HsPacket Mac)}
    {out : Option (HsMessage Mac)} (h : PairInv suite me other net)
    (hmove : Move suite me other net me' out) (hnet : ∀ p ∈ net', p ∈ net) :
    PairInv suite me' other (net' ++ (out.map fun m => ⟨other.side, m⟩).toList) := by
  have hsplit : ∀ {dest : Bool} {m : HsMessage Mac},
      ⟨dest, m⟩ ∈ net' ++ (out.map fun m => (⟨other.side, m⟩ : HsPacket Mac)).toList →
      ⟨dest, m⟩ ∈ net ∨ dest = other.side ∧ out = some m := by
    intro dest m hmem
    rcases List.mem_append.mp hmem with hmem | hmem
    · exact .inl (hnet _ hmem)
    · rw [Option.mem_toList] at hmem
      obtain ⟨m', hout, heq⟩ := Option.map_eq_some_iff.mp hmem
      cases heq
      exact .inr ⟨rfl, hout⟩
  have hmine : ∀ {m : HsMessage Mac},
      ⟨me'.side, m⟩ ∈ net' ++ (out.map fun m => (⟨other.side, m⟩ : HsPacket Mac)).toList →
      ⟨me.side, m⟩ ∈ net := by
    intro m hmem
    rw [hmove.same.side_eq] at hmem
    rcases hsplit hmem with hmem | ⟨hside, -⟩
    · exact hmem
    · exact absurd hside (by rw [h.sides]; cases me.side <;> decide)
  have hsame := hmove.same
  refine ⟨⟨?_, hmove.id, hmove.attempt, hmove.answered, fun r hr => ?_, fun f hf => ?_⟩,
    ⟨h.theirs.publicKey_eq, fun e he => ?_, h.theirs.attempt, fun e he hne => ?_, fun r hr => ?_,
      fun f hf => ?_⟩, ?_, hmove.agree⟩
  · rw [hsame.publicKey_eq, hsame.secretKey_eq]
    exact h.mine.publicKey_eq
  · exact h.mine.res r (hmine hr)
  · obtain ⟨k, hans, hacc⟩ := h.mine.finish f (hmine hf)
    exact ⟨k, hans.mono hsame (.refl other), fun hnew => hacc (hmove.quiet f k hans hnew)⟩
  · rw [hsame.publicKey_eq]
    exact h.theirs.id e he
  · exact (h.theirs.answered e he hne).mono hsame (.refl other)
  · rw [hsame.publicKey_eq, hsame.side_eq]
    rcases hsplit hr with hr | ⟨-, hout⟩
    · obtain ⟨hpk, i, hi, heph⟩ := h.theirs.res r hr
      exact ⟨hpk, i, Nat.lt_of_lt_of_le hi hsame.generated_le, heph⟩
    · obtain ⟨hpk, i, hi, heph⟩ := hmove.sent _ hout
      rw [hsame.publicKey_eq] at hpk
      rw [hsame.side_eq] at heph
      exact ⟨hpk, i, hi, heph⟩
  · rcases hsplit hf with hf | ⟨-, hout⟩
    · obtain ⟨k, hans, hacc⟩ := h.theirs.finish f hf
      refine ⟨k, hans.mono (.refl other) hsame, fun hnew => ?_⟩
      rw [hmove.stands f hf hnew]
      exact hacc hnew
    · obtain ⟨k, hans, hsession⟩ := hmove.sent _ hout
      exact ⟨k, hans, fun _ => hsession⟩
  · rw [hsame.side_eq]
    exact h.sides

end Agreement

end BcpFlux.Socket
