import BcpFlux.Socket.HandshakeLink

/-! # Every handler is a move

One lemma for each handler: connecting, retrying, answering a challenge, validating an
`HS_RES`, completing on an `HS_FINISH` and the first confirmed packet.
-/

namespace BcpFlux.Socket
open Library Crypto

section Agreement
variable {Mac : Type} {suite : HandshakeSuite Mac} [DecidableEq Mac]

section Moves
variable {me other : HsNode Mac} {net : List (HsPacket Mac)}

variable {f : HsFinish Mac}

theorem wouldAccept_eq_false {k : Key}
    (h : me.session? = some k) : me.wouldAccept suite f = false := by
  rw [HsNode.wouldAccept]
  split
  · rfl
  · next e he =>
    by_contra hacc
    rw [Bool.not_eq_false] at hacc
    have hstate := (accepts_iff.mp hacc).1
    simp [HsNode.session?, he, hstate] at h

theorem not_accepts_of_zero {e : HsEntry Mac} {k : Key}
    (h : Answers suite me other f k) (hzero : e.hsEphPub = zeroKey) :
    me.accepts suite e f = false := by
  by_contra hacc
  rw [Bool.not_eq_false] at hacc
  obtain ⟨i, -, -, heph, -⟩ := accepts_transcript h hacc
  exact suite.ephemeral_ne me.side i (heph.symm.trans hzero)

variable {me' : HsNode Mac}

theorem accepts_same (hsame : SameNode me me') (e : HsEntry Mac)
    (f : HsFinish Mac) : me'.accepts suite e f = me.accepts suite e f := by
  rw [Bool.eq_iff_iff, accepts_iff, accepts_iff]
  simp only [HsNode.finishSession, HsNode.deriveSession, HsNode.initiatorTranscript,
    hsame.publicKey_eq, hsame.secretKey_eq, hsame.version_eq]

variable {out : Option (HsMessage Mac)}

theorem PairInv.stay (h : PairInv suite me other net)
    (hsame : SameNode me me') (hentry : me'.entry = me.entry)
    (hout : ∀ m, out = some m → MaySay suite me' other m) : Move suite me other net me' out := by
  have hsession : me'.session? = me.session? := by rw [HsNode.session?, hentry, HsNode.session?]
  refine ⟨hsame, fun e he => h.mine.id e (hentry ▸ he), fun e he hstate => ?_, fun e he hne => ?_,
    fun f k _ hacc => ?_, fun _ _ _ => hsession, fun k k' hk => h.agree k k' (hsession ▸ hk), hout⟩
  · obtain ⟨hzero, hattempt⟩ := h.mine.attempt e (hentry ▸ he) hstate
    exact ⟨hzero, hattempt.mono hsame⟩
  · exact (h.mine.answered e (hentry ▸ he) hne).mono (.refl other) hsame
  · rw [HsNode.wouldAccept, hentry] at hacc
    simpa only [HsNode.wouldAccept, accepts_same hsame] using hacc

theorem Move.waiting (hsame : SameNode me me')
    (hold : me.session? = none)
    (hnew : ∀ e, me'.entry = some e → e.state ≠ .established ∧ e.hsPeerEph = zeroKey ∧
      AttemptOf suite me' e ∧ (e.id = none ∨ e.id = some (suite.deriveId other.publicKey)) ∧
      ∀ f k, Answers suite me other f k → me.accepts suite e f = true →
        me.wouldAccept suite f = true)
    (hout : ∀ m, out = some m → MaySay suite me' other m) : Move suite me other net me' out := by
  have hsession : me'.session? = none :=
    session?_eq_none_iff.mpr fun e he => (hnew e he).1
  refine ⟨hsame, fun e he => ?_, fun e he _ => ⟨(hnew e he).2.1, (hnew e he).2.2.1⟩,
    fun e he hne => absurd (hnew e he).2.1 hne, fun f k hans hacc => ?_,
    fun _ _ _ => hsession.trans hold.symm, fun k k' hk => ?_, hout⟩
  · rcases (hnew e he).2.2.2.1 with hid | hid
    · exact .inl ⟨hid, (hnew e he).1⟩
    · exact .inr hid
  · rw [HsNode.wouldAccept] at hacc
    split at hacc
    · cases hacc
    · next e he => exact (hnew e he).2.2.2.2 f k hans (accepts_same hsame e f ▸ hacc)
  · rw [hsession] at hk
    cases hk

theorem PairInv.connect (h : PairInv suite me other net) (registers : Bool)
    (hout : ∀ m, out = some m → m = .init) :
    Move suite me other net (me.connect suite registers).1 out := by
  rw [HsNode.connect]
  split
  · next hcond =>
    simp only [Bool.and_eq_true, Option.isNone_iff_eq_none] at hcond
    refine Move.waiting ⟨rfl, rfl, rfl, rfl, Nat.le_refl _⟩ ?_ ?_ (maySay_init hout)
    · simp [HsNode.session?, hcond.1]
    · intro e he
      cases he
      refine ⟨by simp [HsEntry.register], rfl, .inl rfl, .inl rfl, fun f k hans hacc => ?_⟩
      rw [not_accepts_of_zero hans rfl] at hacc
      cases hacc
  · exact h.stay (.refl me) rfl (maySay_init hout)

theorem PairInv.retry (h : PairInv suite me other net)
    (hout : ∀ m, out = some m → m = .init) : Move suite me other net me.retry.1 out := by
  rw [HsNode.retry]
  split
  · exact h.stay (.refl me) rfl (maySay_init hout)
  · next e he =>
    by_cases hstate : e.state = .established
    · rw [if_pos hstate]
      exact h.stay (.refl me) rfl (maySay_init hout)
    have hold := session?_of_waiting he hstate
    rw [if_neg hstate]
    split
    · refine Move.waiting ⟨rfl, rfl, rfl, rfl, Nat.le_refl _⟩ hold ?_ (maySay_init hout)
      intro e' he'
      cases he'
    · refine Move.waiting ⟨rfl, rfl, rfl, rfl, Nat.le_refl _⟩ hold ?_ (maySay_init hout)
      intro e' he'
      cases he'
      obtain ⟨hzero, hattempt⟩ := h.mine.attempt e he hstate
      refine ⟨by simp, hzero, hattempt, ?_, fun f k _ hacc => ?_⟩
      · exact (h.mine.id e he).imp And.left id
      · -- the attempt is the same, whatever message is sent again
        rw [HsNode.wouldAccept, he]
        exact accepts_iff.mpr ⟨hstate, (accepts_iff.mp hacc).2⟩

theorem PairInv.respond (h : PairInv suite me other net) (c : HsChoices) :
    Move suite me other net (me.respond suite c).1 ((me.respond suite c).2.map .res) := by
  have hbump : SameNode me { me with generated := me.generated + 1 } :=
    ⟨rfl, rfl, rfl, rfl, Nat.le_succ _⟩
  rw [HsNode.respond]
  split
  · exact h.stay (.refl me) rfl maySay_none
  dsimp only
  split
  · exact h.stay hbump rfl maySay_none
  split
  · exact h.stay hbump rfl maySay_none
  next e he =>
  replace he : me.entry = some e := he
  split
  · exact h.stay hbump rfl maySay_none
  next hstate =>
  have hwaiting : e.state ≠ .established := by
    rw [not_ne_iff.mp hstate]
    decide
  have hold := session?_of_waiting he hwaiting
  refine Move.waiting ⟨rfl, rfl, rfl, rfl, Nat.le_succ _⟩ hold ?_ ?_
  · intro e' he'
    cases he'
    refine ⟨by simp, (h.mine.attempt e he hwaiting).1,
      .inr ⟨me.generated, Nat.lt_succ_self _, rfl, rfl⟩, (h.mine.id e he).imp And.left id, ?_⟩
    -- every answer so far was made for an ephemeral generated before this one
    intro f k hans hacc
    obtain ⟨i, hi, -, heph, -⟩ := accepts_transcript hans hacc
    exact absurd (suite.ephemeral_inj _ _ _ heph) (Nat.ne_of_gt hi)
  · intro m hm
    cases hm
    exact ⟨rfl, me.generated, Nat.lt_succ_self _, rfl⟩

variable {r : HsRes} {c : HsChoices}

/-- An entry that `Handshake_Validate` goes on with belongs to the sender, and is the one
held or one that waits. -/
theorem SideInv.judgeRes_commit (h : SideInv suite me other net)
    {e : HsEntry Mac} (hpk : r.pk = other.publicKey) (hj : me.judgeRes suite r c = .commit e) :
    e.id = some (suite.deriveId other.publicKey) ∧
    (me.entry = some e ∨ me.session? = none ∧ e.state ≠ .established ∧ e.hsPeerEph = zeroKey ∧
      AttemptOf suite me e ∧ ∀ f k, Answers suite me other f k → me.accepts suite e f = true →
        me.wouldAccept suite f = true) := by
  rw [HsNode.judgeRes, hpk] at hj
  cases hentry : me.entry with
  | none =>
    rw [hentry] at hj
    dsimp only at hj
    split at hj
    · cases hj
      refine ⟨rfl, .inr ⟨by simp [HsNode.session?, hentry], by simp [HsEntry.register], rfl,
        .inl rfl, fun f k hans hacc => ?_⟩⟩
      rw [not_accepts_of_zero hans rfl] at hacc
      cases hacc
    · cases hj
  | some e₀ =>
    rw [hentry] at hj
    dsimp only at hj
    by_cases hstate : e₀.state = .established
    · rw [if_pos hstate] at hj
      split at hj
      · split at hj <;> cases hj
      next hid =>
      split at hj
      · cases hj
      split at hj
      · cases hj
      cases hj
      exact ⟨not_ne_iff.mp hid, .inl rfl⟩
    · rw [if_neg hstate] at hj
      split at hj
      · cases hj
      cases hj
      obtain ⟨hzero, hattempt⟩ := h.attempt e₀ hentry hstate
      refine ⟨?_, .inr ⟨session?_of_waiting hentry hstate, hstate, hzero, hattempt,
        fun f k _ hacc => ?_⟩⟩
      · rcases h.id e₀ hentry with ⟨hid, -⟩ | hid <;> simp [hid]
      · rw [HsNode.wouldAccept, hentry]
        exact accepts_iff.mpr (accepts_iff.mp hacc)

/-- The id an honest sender claims is the id held. -/
theorem SideInv.judgeRes_ne_remove (h : SideInv suite me other net)
    (hpk : r.pk = other.publicKey) : me.judgeRes suite r c ≠ .remove := by
  intro hj
  rw [HsNode.judgeRes, hpk] at hj
  split at hj
  · split at hj <;> cases hj
  next e he =>
  split at hj
  next hstate =>
    have hid : e.id = some (suite.deriveId other.publicKey) := by
      rcases h.id e he with ⟨-, hne⟩ | hid
      · exact absurd hstate hne
      · exact hid
    rw [if_neg (not_not_intro hid)] at hj
    split at hj
    · cases hj
    · split at hj <;> cases hj
  · split at hj <;> cases hj

/-- `Handshake_Validate`, when a new session would replace nothing its sender holds or is
about to hold. -/
theorem PairInv.validate (h : PairInv suite me other net)
    (hr : ⟨me.side, .res r⟩ ∈ net)
    (hfree : me.wouldCommit suite r c = true → other.session? = none ∧
      ∀ f, ⟨other.side, .finish f⟩ ∈ net → other.wouldAccept suite f = false) :
    Move suite me other net (me.validate suite r c).1
      ((me.validate suite r c).2.map .finish) := by
  obtain ⟨hpk, i, hi, heph⟩ := h.mine.res r hr
  rw [HsNode.validate]
  split
  · exact h.stay (.refl me) rfl maySay_none
  next hcookie =>
  cases hj : me.judgeRes suite r c with
  | ignore => exact h.stay (.refl me) rfl maySay_none
  | remove => exact absurd hj (h.mine.judgeRes_ne_remove hpk)
  | again e =>
    obtain ⟨he, hstate, heq⟩ := judgeRes_again hj
    refine h.stay (.refl me) rfl fun m hm => ?_
    dsimp only at hm
    split at hm
    · cases hm
      have hne : e.hsPeerEph ≠ zeroKey := by
        rw [heq, heph]
        exact suite.ephemeral_ne _ _
      exact ⟨e.session, h.mine.answered e he hne, session?_of_established he hstate⟩
    · cases hm
  | commit e =>
    obtain ⟨hid, hentry⟩ := h.mine.judgeRes_commit hpk hj
    dsimp only
    split
    · have hsame : SameNode me { me with entry := some e } := ⟨rfl, rfl, rfl, rfl, Nat.le_refl _⟩
      rcases hentry with hentry | ⟨hold, hstate, hzero, hattempt, hquiet⟩
      · exact h.stay hsame hentry.symm maySay_none
      · refine Move.waiting hsame hold ?_ maySay_none
        intro e' he'
        cases he'
        exact ⟨hstate, hzero, hattempt, .inr hid, hquiet⟩
    next hrandom =>
    have hcommit : me.wouldCommit suite r c = true :=
      wouldCommit_of_judgeRes (by simpa using hcookie) (by simpa using hrandom) hj
    obtain ⟨hnone, hnet⟩ := hfree hcommit
    have hsame : ∀ entry, SameNode me { me with entry := entry, generated := me.generated + 1 } :=
      fun _ => ⟨rfl, rfl, rfl, rfl, Nat.le_succ _⟩
    refine ⟨hsame _, fun e' he' => ?_, fun e' he' hne => ?_, fun e' he' _ => ?_,
      fun f k _ hacc => ?_, fun f hf hacc => ?_, fun k k' _ hk' => ?_, fun m hm => ?_⟩
    · cases he'
      exact .inr hid
    · cases he'
      exact absurd rfl hne
    · cases he'
      exact committed_answers hi hpk heph (hsame _) _
    · rw [wouldAccept_eq_false (session?_of_established rfl rfl)] at hacc
      cases hacc
    · rw [hnet f hf] at hacc
      cases hacc
    · rw [hnone] at hk'
      cases hk'
    · split at hm
      · cases hm
        exact ⟨_, committed_answers hi hpk heph (hsame _) _, session?_of_established rfl rfl⟩
      · cases hm

theorem PairInv.complete (h : PairInv suite me other net)
    (hf : ⟨me.side, .finish f⟩ ∈ net) :
    Move suite me other net (me.complete suite f c) none := by
  rw [HsNode.complete]
  split
  · exact h.stay (.refl me) rfl maySay_none
  next e he =>
  split
  · exact h.stay (.refl me) rfl maySay_none
  next hcond =>
  have hacc : me.accepts suite e f = true := by
    by_contra hrefused
    simp [hrefused] at hcond
  have hstate := (accepts_iff.mp hacc).1
  obtain ⟨k, hans, hsession⟩ := h.mine.finish f hf
  have hother : other.session? = some k := hsession (by rw [HsNode.wouldAccept, he]; exact hacc)
  obtain ⟨hzero, hattempt⟩ := h.mine.attempt e he hstate
  have hkey : me.finishSession suite e f = k :=
    finishSession_eq h.mine.publicKey_eq h.theirs.publicKey_eq hattempt hans hacc
  obtain ⟨-, -, -, -, hpk, -⟩ := accepts_transcript hans hacc
  refine ⟨⟨rfl, rfl, rfl, rfl, Nat.le_refl _⟩, fun e' he' => ?_, fun e' he' hne => ?_,
    fun e' he' hne => ?_, fun f' k' _ hacc' => ?_, fun f' _ hacc' => ?_, fun k₁ k₂ hk₁ hk₂ => ?_,
    maySay_none⟩
  · cases he'
    exact .inr (congrArg (some ∘ suite.deriveId) hpk)
  · cases he'
    exact absurd rfl hne
  · cases he'
    exact absurd hzero hne
  · rw [wouldAccept_eq_false (session?_of_established rfl rfl)] at hacc'
    cases hacc'
  · rw [wouldAccept_eq_false hother] at hacc'
    cases hacc'
  · rw [session?_of_established rfl rfl] at hk₁
    cases hk₁
    rw [hother] at hk₂
    cases hk₂
    exact hkey

theorem PairInv.confirm (h : PairInv suite me other net) :
    Move suite me other net me.confirm none := by
  rw [HsNode.confirm]
  split
  · exact h.stay (.refl me) rfl maySay_none
  next e he =>
  split
  next hstate =>
    have hold : me.session? = some e.session := session?_of_established he hstate
    have hnew : HsNode.session? { me with entry := some { e with confirmed := true } } =
        me.session? := by
      rw [hold]
      exact session?_of_established (e := { e with confirmed := true }) rfl hstate
    refine ⟨⟨rfl, rfl, rfl, rfl, Nat.le_refl _⟩, fun e' he' => ?_, fun e' he' hne => ?_,
      fun e' he' hne => ?_, fun f k _ hacc => ?_, fun _ _ _ => hnew,
      fun k k' hk => h.agree k k' (hnew ▸ hk), maySay_none⟩
    · cases he'
      exact h.mine.id e he
    · cases he'
      exact absurd hstate hne
    · cases he'
      exact h.mine.answered e he hne
    · rw [wouldAccept_eq_false (hnew.trans hold)] at hacc
      cases hacc
  · exact h.stay (.refl me) rfl maySay_none

theorem PairInv.handle (h : PairInv suite me other net) {m : HsMessage Mac} (c : HsChoices)
    (hm : ⟨me.side, m⟩ ∈ net)
    (hfree : ∀ r, m = .res r → me.wouldCommit suite r c = true → other.session? = none ∧
      ∀ f, ⟨other.side, .finish f⟩ ∈ net → other.wouldAccept suite f = false) :
    Move suite me other net (me.handle suite m c).1 (me.handle suite m c).2 := by
  cases m with
  | init =>
    refine h.stay (.refl me) rfl fun m hsent => ?_
    simp only [HsNode.handle] at hsent
    split at hsent
    · cases hsent
      trivial
    · cases hsent
  | challenge => exact h.respond c
  | res r => exact h.validate hm (hfree r rfl)
  | finish f => exact h.complete hm

end Moves

end Agreement

end BcpFlux.Socket
