import BcpFlux.Socket.Authentic
import BcpFlux.Socket.PeerLife

/-! # Rebinding an address

A peer that shows up at a new address is sent a challenge there, sealed under its session,
and its address follows once the challenge comes back.  The run is watched: every challenge
sealed and every rebinding is written down.  Three things are taken for granted, of the
generator of challenges, of the key exchange and of the seal.
-/

namespace BcpFlux.Socket
open Library Wire Crypto Function

/-- A path challenge this socket sealed. -/
structure Sealing where
  slot : ℕ
  key : Key
  dest : Address
  challenge : List UInt8
  round : ℕ
deriving DecidableEq

structure Watched (Mac : Type) where
  sock : RecvSocket Mac
  sealed : List Sealing
  /-- The validation round each slot is in, or was in last. -/
  round : ℕ → ℕ
  /-- Session keys installed, each with its slot. -/
  keys : List (ℕ × Key)
  /-- Slots that were moved, each with the challenge that did it. -/
  rebinds : List (ℕ × List UInt8)

namespace RecvSocket
variable {Mac : Type} (suite : RecvSuite Mac) (s s' : RecvSocket Mac)

def moverOf : PeerEvent → Option ℕ
  | .datagram _ d c => (s.openCandidate suite d (c.candidates.take tagCandidates)).map Prod.fst
  | _ => none

/-- The slot at an address has come to a session it did not have. -/
def installed (src : Address) : Option (ℕ × Key) :=
  match s'.slotOf src with
  | none => none
  | some i =>
    if (s'.peer i).hs.state = .established ∧
        ¬((s.peer i).hs.state = .established ∧ (s.peer i).hs.session = (s'.peer i).hs.session) then
      some (i, (s'.peer i).hs.session)
    else none

/-- A slot in use has come to an address it was not at. -/
def rebound (src : Address) : Option ℕ :=
  match s'.slotOf src with
  | none => none
  | some i => if s.live i = true ∧ s.slotOf src ≠ some i then some i else none

/-- The round of each slot after an event: validating an address anew is a new round. -/
def roundAfter (round : ℕ → ℕ) (src : Address) (mover : Option ℕ) : ℕ → ℕ :=
  match mover with
  | none => round
  | some i =>
    if (s.peer i).pathAddr ≠ some src ∧ (s'.peer i).pathAddr = some src then
      update round i (round i + 1)
    else round

/-! ## Events that begin no round -/

/-- The index still leads to the addresses, sessions change only at the event's address, and
no validation begins. -/
structure Settles (src : Address) : Prop where
  index : (∀ a i, s.slotOf a = some i → (s.peer i).addr = a) →
    ∀ a i, s'.slotOf a = some i → (s'.peer i).addr = a
  sessions : ∀ i, (s'.peer i).hs.state = .established →
    ((s.peer i).hs.state = .established ∧ (s.peer i).hs.session = (s'.peer i).hs.session) ∨
      s'.slotOf src = some i
  paths : ∀ i dest, (s'.peer i).pathAddr = some dest →
    (s.peer i).pathAddr = some dest ∧ (s'.peer i).pathChallenge = (s.peer i).pathChallenge

section Settles
variable {s s'} {src : Address}

theorem pathView_inj {p q : RecvPeer Mac} (h : pathView p = pathView q) :
    p.addr = q.addr ∧ p.hs.state = q.hs.state ∧ p.hs.session = q.hs.session ∧
      p.pathAddr = q.pathAddr ∧ p.pathChallenge = q.pathChallenge := by
  simpa only [pathView, Prod.mk.injEq] using h

theorem Settles.of_quiet (h : Quiet s s') (src : Address) : Settles s s' src where
  index := by
    intro hindex a i ha
    rw [h.slots] at ha
    rw [(pathView_inj (h.views i)).1]
    exact hindex a i ha
  sessions := by
    intro i hstate
    obtain ⟨-, hsame, hsession, -, -⟩ := pathView_inj (h.views i)
    exact Or.inl ⟨hsame ▸ hstate, hsession.symm⟩
  paths := by
    intro i dest hpath
    obtain ⟨-, -, -, hsame, hchallenge⟩ := pathView_inj (h.views i)
    exact ⟨hsame ▸ hpath, hchallenge⟩

theorem Settles.at_slot {i : ℕ} (others : Elsewhere s s' i)
    (hindex : (∀ a i, s.slotOf a = some i → (s.peer i).addr = a) → ∀ a j, s'.slotOf a = some j →
      (j = i ∧ (s'.peer i).addr = a) ∨ (j ≠ i ∧ s.slotOf a = some j))
    (hsession : (s'.peer i).hs.state = .established →
      ((s.peer i).hs.state = .established ∧ (s.peer i).hs.session = (s'.peer i).hs.session) ∨
        s'.slotOf src = some i)
    (hpath : ∀ dest, (s'.peer i).pathAddr = some dest →
      (s.peer i).pathAddr = some dest ∧ (s'.peer i).pathChallenge = (s.peer i).pathChallenge) :
    Settles s s' src where
  index := by
    intro hold a j ha
    rcases hindex hold a j ha with ⟨rfl, haddr⟩ | ⟨hji, hbefore⟩
    · exact haddr
    · rw [(pathView_inj (others j hji)).1]
      exact hold a j hbefore
  sessions := by
    intro j hstate
    by_cases hji : j = i
    · rw [hji] at hstate ⊢
      exact hsession hstate
    · obtain ⟨-, hsame, hkey, -, -⟩ := pathView_inj (others j hji)
      exact Or.inl ⟨hsame ▸ hstate, hkey.symm⟩
  paths := by
    intro j dest hdest
    by_cases hji : j = i
    · rw [hji] at hdest ⊢
      exact hpath dest hdest
    · obtain ⟨-, -, -, hsame, hchallenge⟩ := pathView_inj (others j hji)
      exact ⟨hsame ▸ hdest, hchallenge⟩

theorem index_kept {i : ℕ} (slots : s'.slotOf = s.slotOf)
    (haddr : (s'.peer i).addr = (s.peer i).addr)
    (hold : ∀ a i, s.slotOf a = some i → (s.peer i).addr = a) (a : Address) (j : ℕ)
    (ha : s'.slotOf a = some j) :
    (j = i ∧ (s'.peer i).addr = a) ∨ (j ≠ i ∧ s.slotOf a = some j) := by
  rw [slots] at ha
  by_cases hji : j = i
  · rw [haddr]
    exact Or.inl ⟨hji, hold a i (hji ▸ ha)⟩
  · exact Or.inr ⟨hji, ha⟩

theorem Settles.of_put (h : Put s src s') : Settles s s' src := by
  cases h with
  | kept quiet => exact .of_quiet quiet src
  | registered i unknown unused slots others addr idle =>
    apply Settles.at_slot others
    · intro hold a j ha
      rw [slots] at ha
      by_cases hsrc : a = src
      · rw [hsrc, update_self, Option.some.injEq] at ha
        exact Or.inl ⟨ha.symm, hsrc ▸ addr⟩
      · rw [update_of_ne hsrc] at ha
        refine Or.inr ⟨?_, ha⟩
        -- the slot handed out was free
        intro hji
        rw [hji] at ha
        rw [live, hold a i ha, ha] at unused
        simp at unused
    · intro _
      right
      rw [slots, update_self]
    · intro dest hdest
      rw [idle] at hdest
      cases hdest
  | removed slots views =>
    have hquiet : Quiet s { s' with slotOf := s.slotOf } := ⟨rfl, views⟩
    have hsettled := Settles.of_quiet hquiet src
    refine ⟨fun hold a j ha => ?_, ?_, hsettled.paths⟩
    · rw [slots] at ha
      by_cases hsrc : a = src
      · rw [hsrc, update_self] at ha
        cases ha
      · rw [update_of_ne hsrc] at ha
        exact hsettled.index hold a j ha
    · intro j hstate
      obtain ⟨-, hsame, hkey, -, -⟩ := pathView_inj (views j)
      exact Or.inl ⟨hsame ▸ hstate, hkey.symm⟩
  | rekeyed i known slots others addr pathAddr pathChallenge =>
    apply Settles.at_slot others
    · exact index_kept slots addr
    · intro _
      right
      rw [slots]
      exact known
    · intro dest hdest
      exact ⟨pathAddr ▸ hdest, pathChallenge⟩

theorem Settles.of_completion {echo : List UInt8} (h : Completion s src echo s') :
    Settles s s' src := by
  cases h with
  | missed quiet => exact .of_quiet quiet src
  | ended i established pending challenge slots others cleared =>
    obtain ⟨haddr, -, hsession, hpath, -⟩ := pathView_inj cleared
    apply Settles.at_slot others
    · exact index_kept slots haddr
    · intro _
      exact Or.inl ⟨established, hsession.symm⟩
    · intro dest hdest
      rw [hpath] at hdest
      cases hdest
  | moved i established pending challenge bound elsewhere unused slots others cleared =>
    obtain ⟨haddr, -, hsession, hpath, -⟩ := pathView_inj cleared
    apply Settles.at_slot others
    · intro hold a j ha
      rw [slots] at ha
      by_cases hsrc : a = src
      · rw [hsrc, update_self, Option.some.injEq] at ha
        exact Or.inl ⟨ha.symm, hsrc ▸ haddr⟩
      · rw [update_of_ne hsrc] at ha
        by_cases hleft : a = (s.peer i).addr
        · rw [hleft, update_self] at ha
          cases ha
        · rw [update_of_ne hleft] at ha
          exact Or.inr ⟨fun hji => hleft (hold a i (hji ▸ ha)).symm, ha⟩
    · intro _
      exact Or.inl ⟨established, hsession.symm⟩
    · intro dest hdest
      rw [hpath] at hdest
      cases hdest

/-! ## Which events move a peer -/

theorem rebound_of_slots (h : s'.slotOf = s.slotOf) (src : Address) : s.rebound s' src = none := by
  rw [rebound, h]
  cases s.slotOf src with
  | none => rfl
  | some i => exact if_neg (by simp)

theorem rebound_of_put (h : Put s src s') : s.rebound s' src = none := by
  cases h with
  | kept quiet => exact rebound_of_slots quiet.slots src
  | registered i unknown unused slots others addr idle =>
    rw [rebound, slots, update_self]
    exact if_neg (by simp [unused])
  | removed slots views =>
    rw [rebound, slots, update_self]
  | rekeyed i known slots others addr pathAddr pathChallenge => exact rebound_of_slots slots src

/-- Where a completion moves a peer, the peer was waiting for this echo from this address,
and nobody was there. -/
theorem rebound_of_completion {echo : List UInt8} (h : Completion s src echo s') :
    s.rebound s' src = none ∨ ∃ i, s.rebound s' src = some i ∧
      (s.peer i).hs.state = .established ∧ (s.peer i).pathAddr = some src ∧
      (s.peer i).pathChallenge = echo ∧ (s'.peer i).pathAddr = none ∧ s.slotOf src = none := by
  cases h with
  | missed quiet => exact Or.inl (rebound_of_slots quiet.slots src)
  | ended i established pending challenge slots others cleared =>
    exact Or.inl (rebound_of_slots slots src)
  | moved i established pending challenge bound elsewhere unused slots others cleared =>
    refine Or.inr ⟨i, ?_, established, pending, challenge, (pathView_inj cleared).2.2.2.1, unused⟩
    rw [rebound, slots, update_self, unused]
    exact if_pos ⟨by rw [live, bound]; exact decide_eq_true rfl, by simp⟩

end Settles

end RecvSocket

namespace Watched
open RecvSocket
variable {Mac : Type} (suite : RecvSuite Mac)

def start (s : RecvSocket Mac) : Watched Mac where
  sock := { s with
    slotOf := fun _ => none
    peer := fun i => { s.peer i with
      hs := HsEntry.register suite.handshake none
      pathAddr := none } }
  sealed := []
  round := fun _ => 0
  keys := []
  rebinds := []

def sealings (s : RecvSocket Mac) (round : ℕ → ℕ) (src : Address) (mover : Option ℕ)
    (sent : List (List UInt8)) : List Sealing :=
  match mover with
  | none => []
  | some i => sent.map fun challenge => ⟨i, (s.peer i).hs.session, src, challenge, round i⟩

variable [DecidableEq Mac]

def step (g : Watched Mac) (e : RecvSocket.PeerEvent) : Watched Mac :=
  let r := g.sock.life suite e
  match e.address with
  | none => { g with sock := r.1 }
  | some src =>
    let mover := g.sock.moverOf suite e
    let round := g.sock.roundAfter r.1 g.round src mover
    { sock := r.1
      sealed := sealings g.sock round src mover (challenges r.2) ++ g.sealed
      round := round
      keys := (g.sock.installed r.1 src).toList ++ g.keys
      rebinds := ((g.sock.rebound r.1 src).map fun i => (i, (g.sock.peer i).pathChallenge)).toList ++
        g.rebinds }

theorem step_sock (g : Watched Mac) (e : RecvSocket.PeerEvent) :
    (g.step suite e).sock = (g.sock.life suite e).1 := by
  rw [step]
  cases e.address <;> rfl

/-! ## What is taken for granted -/

/-- `RandomBytes` does not repeat a challenge. -/
def FreshChallenge (g : Watched Mac) : RecvSocket.PeerEvent → Prop
  | .datagram _ _ c => ∀ challenge ∈ c.challenge, challenge ∉ g.sealed.map Sealing.challenge
  | _ => True

/-- A key exchange does not arrive at a key there has been. -/
def FreshSession (g : Watched Mac) (e : RecvSocket.PeerEvent) : Prop :=
  ∀ src ∈ e.address, ∀ k ∈ g.sock.installed (g.sock.life suite e).1 src, k.2 ∉ g.keys.map Prod.snd

/-- Nobody else can seal under a session or read what is sealed under it: a path response
that opens under one echoes a challenge that was sealed under it. -/
def OnlyEchoes (g : Watched Mac) : RecvSocket.PeerEvent → Prop
  | .datagram _ d c =>
    ∀ r ∈ g.sock.openCandidate suite d (c.candidates.take tagCandidates),
      r.2.2.secureChannel = secureChannelPathResp → ∃ x ∈ g.sealed,
        x.key = (g.sock.peer r.1).hs.session ∧ x.challenge = echoOf
          ((r.2.2.drop (r.2.2.headSize + wireSecureChannelSize)).take 64)
  | _ => True

structure Admissible (g : Watched Mac) (e : RecvSocket.PeerEvent) : Prop where
  challenge : g.FreshChallenge e
  session : g.FreshSession suite e
  echo : g.OnlyEchoes suite e

/-! ## The invariant -/

structure Inv (g : Watched Mac) : Prop where
  index : ∀ a i, g.sock.slotOf a = some i → (g.sock.peer i).addr = a
  keyed : ∀ i, (g.sock.peer i).hs.state = .established → (i, (g.sock.peer i).hs.session) ∈ g.keys
  owner : ∀ i j k, (i, k) ∈ g.keys → (j, k) ∈ g.keys → i = j
  sealedKey : ∀ x ∈ g.sealed, (x.slot, x.key) ∈ g.keys
  pending : ∀ i dest, (g.sock.peer i).pathAddr = some dest → ∃ x ∈ g.sealed, x.slot = i ∧
    x.dest = dest ∧ x.challenge = (g.sock.peer i).pathChallenge ∧ x.round = g.round i
  sameRound : ∀ x ∈ g.sealed, ∀ y ∈ g.sealed, x.challenge = y.challenge →
    x.slot = y.slot ∧ x.dest = y.dest ∧ x.round = y.round
  unspent : ∀ i dest, (g.sock.peer i).pathAddr = some dest →
    (g.sock.peer i).pathChallenge ∉ g.rebinds.map Prod.snd
  spent : ∀ challenge ∈ g.rebinds.map Prod.snd, challenge ∈ g.sealed.map Sealing.challenge
  once : (g.rebinds.map Prod.snd).Nodup

omit [DecidableEq Mac] in
theorem Inv.start (s : RecvSocket Mac) : (start suite s).Inv where
  index := by simp [Watched.start]
  keyed := by simp [Watched.start, HsEntry.register]
  owner := by simp [Watched.start]
  sealedKey := by simp [Watched.start]
  pending := by simp [Watched.start]
  sameRound := by simp [Watched.start]
  unspent := by simp [Watched.start]
  spent := by simp [Watched.start]
  once := by simp [Watched.start]

section Steps
variable {suite} {g g' : Watched Mac} {src : Address}

omit [DecidableEq Mac] in
theorem Inv.rekey (h : g.Inv) (hset : RecvSocket.Settles g.sock g'.sock src)
    (hkeys : g'.keys = (g.sock.installed g'.sock src).toList ++ g.keys)
    (hfresh : ∀ k ∈ g.sock.installed g'.sock src, k.2 ∉ g.keys.map Prod.snd) :
    (∀ i, (g'.sock.peer i).hs.state = .established →
      (i, (g'.sock.peer i).hs.session) ∈ g'.keys) ∧
    (∀ i j k, (i, k) ∈ g'.keys → (j, k) ∈ g'.keys → i = j) ∧
    ∀ p ∈ g.keys, p ∈ g'.keys := by
  have hmono : ∀ p ∈ g.keys, p ∈ g'.keys := by
    intro p hp
    rw [hkeys]
    exact List.mem_append_right _ hp
  refine ⟨?_, ?_, hmono⟩
  · intro i hstate
    by_cases hbefore : (g.sock.peer i).hs.state = .established ∧
        (g.sock.peer i).hs.session = (g'.sock.peer i).hs.session
    · rw [← hbefore.2]
      exact hmono _ (h.keyed i hbefore.1)
    · have hslot := (hset.sessions i hstate).resolve_left hbefore
      have hinstalled : g.sock.installed g'.sock src = some (i, (g'.sock.peer i).hs.session) := by
        rw [installed, hslot]
        exact if_pos ⟨hstate, hbefore⟩
      rw [hkeys, hinstalled]
      exact List.mem_append_left _ List.mem_cons_self
  · rw [hkeys]
    cases hinstalled : g.sock.installed g'.sock src with
    | none => exact h.owner
    | some p =>
      have hnew : ∀ i, (i, p.2) ∉ g.keys := by
        intro i hmem
        exact hfresh p hinstalled (List.mem_map.mpr ⟨_, hmem, rfl⟩)
      intro i j k hi hj
      rcases List.mem_cons.mp hi with rfl | hi'
      · rcases List.mem_cons.mp hj with hjk | hj'
        · exact (congrArg Prod.fst hjk).symm
        · exact absurd hj' (hnew j)
      · rcases List.mem_cons.mp hj with rfl | hj'
        · exact absurd hi' (hnew i)
        · exact h.owner i j k hi' hj'

variable {i : ℕ} {dest : Address}

omit [DecidableEq Mac] in
/-- Two validations never wait for one challenge. -/
theorem Inv.challenge_inj (h : g.Inv) {j : ℕ} {dest' : Address}
    (hi : (g.sock.peer i).pathAddr = some dest) (hj : (g.sock.peer j).pathAddr = some dest')
    (hsame : (g.sock.peer i).pathChallenge = (g.sock.peer j).pathChallenge) : i = j := by
  obtain ⟨x, hx, hxi, -, hxc, -⟩ := h.pending i dest hi
  obtain ⟨y, hy, hyj, -, hyc, -⟩ := h.pending j dest' hj
  rw [← hxi, ← hyj]
  exact (h.sameRound x hx y hy (by rw [hxc, hyc, hsame])).1

omit [DecidableEq Mac] in
theorem Inv.settle (h : g.Inv) (hset : RecvSocket.Settles g.sock g'.sock src)
    (hsealed : g'.sealed = g.sealed) (hround : g'.round = g.round)
    (hkeys : g'.keys = (g.sock.installed g'.sock src).toList ++ g.keys)
    (hfresh : ∀ k ∈ g.sock.installed g'.sock src, k.2 ∉ g.keys.map Prod.snd)
    (hrebinds : g'.rebinds = ((g.sock.rebound g'.sock src).map fun i =>
      (i, (g.sock.peer i).pathChallenge)).toList ++ g.rebinds)
    (hmoved : ∀ i, g.sock.rebound g'.sock src = some i →
      (g.sock.peer i).pathAddr = some src ∧ (g'.sock.peer i).pathAddr = none) : g'.Inv := by
  obtain ⟨hkeyed, howner, hmono⟩ := h.rekey hset hkeys hfresh
  refine ⟨hset.index h.index, hkeyed, howner, ?_, ?_, ?_, ?_, ?_, ?_⟩
  · intro x hx
    rw [hsealed] at hx
    exact hmono _ (h.sealedKey x hx)
  · intro i dest hdest
    obtain ⟨hbefore, hchallenge⟩ := hset.paths i dest hdest
    rw [hsealed, hround, hchallenge]
    exact h.pending i dest hbefore
  · rw [hsealed]
    exact h.sameRound
  · intro i dest hdest
    obtain ⟨hbefore, hchallenge⟩ := hset.paths i dest hdest
    have hunspent := h.unspent i dest hbefore
    rw [hrebinds, hchallenge]
    cases hrebound : g.sock.rebound g'.sock src with
    | none => exact hunspent
    | some j =>
      obtain ⟨hpending, hcleared⟩ := hmoved j hrebound
      intro hmem
      rcases List.mem_cons.mp hmem with hsame | hmem
      · -- the one challenge just spent belongs to the peer that moved
        rw [h.challenge_inj hbefore hpending hsame, hcleared] at hdest
        cases hdest
      · exact hunspent hmem
  · intro challenge hmem
    rw [hsealed]
    rw [hrebinds] at hmem
    cases hrebound : g.sock.rebound g'.sock src with
    | none =>
      rw [hrebound] at hmem
      exact h.spent challenge hmem
    | some j =>
      rw [hrebound] at hmem
      rcases List.mem_cons.mp hmem with rfl | hmem
      · obtain ⟨x, hx, -, -, hxc, -⟩ := h.pending j src (hmoved j hrebound).1
        exact List.mem_map.mpr ⟨x, hx, hxc⟩
      · exact h.spent challenge hmem
  · rw [hrebinds]
    cases hrebound : g.sock.rebound g'.sock src with
    | none => exact h.once
    | some j => exact List.nodup_cons.mpr ⟨h.unspent j src (hmoved j hrebound).1, h.once⟩

omit [DecidableEq Mac] in
theorem Inv.resend (h : g.Inv) {x : Sealing} (hkey : (x.slot, x.key) ∈ g.keys)
    (hpending : (g.sock.peer x.slot).pathAddr = some x.dest)
    (hchallenge : x.challenge = (g.sock.peer x.slot).pathChallenge)
    (hround : x.round = g.round x.slot) : { g with sealed := x :: g.sealed }.Inv := by
  obtain ⟨x₀, hx₀, hslot₀, hdest₀, hchallenge₀, hround₀⟩ := h.pending x.slot x.dest hpending
  -- the first sealing of the round speaks for this one
  have hfirst : ∀ y ∈ g.sealed, x.challenge = y.challenge →
      x.slot = y.slot ∧ x.dest = y.dest ∧ x.round = y.round := by
    intro y hy hsame
    obtain ⟨hslot, hdest, hrounds⟩ := h.sameRound x₀ hx₀ y hy
      (by rw [hchallenge₀, ← hchallenge, hsame])
    exact ⟨hslot₀ ▸ hslot, hdest₀ ▸ hdest, by rw [hround, ← hround₀, hrounds]⟩
  refine { h with sealedKey := ?_, pending := ?_, sameRound := ?_, spent := ?_ }
  · intro y hy
    rcases List.mem_cons.mp hy with rfl | hy
    · exact hkey
    · exact h.sealedKey y hy
  · intro i dest hdest
    obtain ⟨y, hy, hfacts⟩ := h.pending i dest hdest
    exact ⟨y, List.mem_cons_of_mem _ hy, hfacts⟩
  · intro y hy z hz hsame
    rcases List.mem_cons.mp hy with rfl | hy'
    · rcases List.mem_cons.mp hz with rfl | hz'
      · exact ⟨rfl, rfl, rfl⟩
      · exact hfirst z hz' hsame
    · rcases List.mem_cons.mp hz with rfl | hz'
      · obtain ⟨hslot, hdest, hrounds⟩ := hfirst y hy' hsame.symm
        exact ⟨hslot.symm, hdest.symm, hrounds.symm⟩
      · exact h.sameRound y hy' z hz' hsame
  · intro challenge hmem
    exact List.mem_cons_of_mem _ (h.spent challenge hmem)

variable {s' : RecvSocket Mac}

omit [DecidableEq Mac] in
theorem Inv.draw (h : g.Inv) {key : Key} {challenge : List UInt8}
    (hkey : (i, key) ∈ g.keys) (hfresh : challenge ∉ g.sealed.map Sealing.challenge) (hslots : s'.slotOf = g.sock.slotOf)
    (hothers : RecvSocket.Elsewhere g.sock s' i)
    (hview : pathView (s'.peer i) = pathView
      { g.sock.peer i with pathAddr := some src, pathChallenge := challenge }) :
    { g with
      sock := s'
      sealed := ⟨i, key, src, challenge, g.round i + 1⟩ :: g.sealed
      round := update g.round i (g.round i + 1) }.Inv := by
  obtain ⟨haddr, hstate, hsession, hpath, hchallenge⟩ := pathView_inj hview
  have hnew : ∀ y ∈ g.sealed, challenge ≠ y.challenge := by
    intro y hy hsame
    exact hfresh (List.mem_map.mpr ⟨y, hy, hsame.symm⟩)
  refine ⟨?_, ?_, h.owner, ?_, ?_, ?_, ?_, ?_, h.once⟩
  · intro a j ha
    rw [hslots] at ha
    by_cases hji : j = i
    · rw [hji, haddr]
      exact h.index a i (hji ▸ ha)
    · rw [(pathView_inj (hothers j hji)).1]
      exact h.index a j ha
  · intro j hestablished
    by_cases hji : j = i
    · rw [hji] at hestablished ⊢
      rw [hstate] at hestablished
      rw [hsession]
      exact h.keyed i hestablished
    · obtain ⟨-, hsame, hkeys, -, -⟩ := pathView_inj (hothers j hji)
      rw [hsame] at hestablished
      rw [hkeys]
      exact h.keyed j hestablished
  · intro x hx
    rcases List.mem_cons.mp hx with rfl | hx
    · exact hkey
    · exact h.sealedKey x hx
  · intro j dest hdest
    dsimp only at hdest ⊢
    by_cases hji : j = i
    · rw [hji] at hdest ⊢
      rw [hpath, Option.some.injEq] at hdest
      exact ⟨_, List.mem_cons_self, rfl, hdest, hchallenge.symm, by rw [update_self]⟩
    · obtain ⟨-, -, -, hsame, hold⟩ := pathView_inj (hothers j hji)
      rw [hsame] at hdest
      obtain ⟨x, hx, hfacts⟩ := h.pending j dest hdest
      rw [hold, update_of_ne hji]
      exact ⟨x, List.mem_cons_of_mem _ hx, hfacts⟩
  · intro x hx y hy hsame
    rcases List.mem_cons.mp hx with rfl | hx'
    · rcases List.mem_cons.mp hy with rfl | hy'
      · exact ⟨rfl, rfl, rfl⟩
      · exact absurd hsame (hnew y hy')
    · rcases List.mem_cons.mp hy with rfl | hy'
      · exact absurd hsame.symm (hnew x hx')
      · exact h.sameRound x hx' y hy' hsame
  · intro j dest hdest
    by_cases hji : j = i
    · rw [hji, hchallenge]
      exact fun hmem => hfresh (h.spent challenge hmem)
    · obtain ⟨-, -, -, hsame, hold⟩ := pathView_inj (hothers j hji)
      rw [hsame] at hdest
      rw [hold]
      exact h.unspent j dest hdest
  · intro spent hmem
    exact List.mem_cons_of_mem _ (h.spent spent hmem)

/-! ## One event -/

omit [DecidableEq Mac] in
theorem roundAfter_settles (hset : RecvSocket.Settles g.sock s' src)
    (mover : Option ℕ) : g.sock.roundAfter s' g.round src mover = g.round := by
  cases mover with
  | none => rfl
  | some i =>
    rw [roundAfter]
    exact if_neg fun h => h.1 (hset.paths i src h.2).1

omit [DecidableEq Mac] in
theorem moved_of_completion {s : RecvSocket Mac} {echo : List UInt8}
    (h : RecvSocket.Completion s src echo s') (i : ℕ) (hi : s.rebound s' src = some i) :
    (s.peer i).pathAddr = some src ∧ (s'.peer i).pathAddr = none := by
  rcases rebound_of_completion h with hnone | ⟨j, hj, -, hpending, -, hcleared, -⟩
  · rw [hnone] at hi
    cases hi
  · rw [hi, Option.some.injEq] at hj
    rw [hj]
    exact ⟨hpending, hcleared⟩

variable {e : RecvSocket.PeerEvent}

theorem Inv.step_settles (h : g.Inv) (hadm : g.Admissible suite e)
    (haddr : e.address = some src) (hsent : challenges (g.sock.life suite e).2 = [])
    (hset : RecvSocket.Settles g.sock (g.sock.life suite e).1 src)
    (hmoved : ∀ i, g.sock.rebound (g.sock.life suite e).1 src = some i →
      (g.sock.peer i).pathAddr = some src ∧
        ((g.sock.life suite e).1.peer i).pathAddr = none) :
    (g.step suite e).Inv := by
  simp only [step, haddr, hsent]
  apply h.settle hset
  · cases g.sock.moverOf suite e <;> rfl
  · exact roundAfter_settles hset _
  · rfl
  · exact hadm.session src haddr
  · rfl
  · exact hmoved

omit [DecidableEq Mac] in
theorem Inv.quiet (h : g.Inv) (hquiet : RecvSocket.Quiet g.sock s') :
    { g with sock := s' }.Inv where
  __ := h
  index := (RecvSocket.Settles.of_quiet hquiet ⟨[], 0, 0⟩).index h.index
  keyed := by
    intro i hstate
    obtain ⟨-, hsame, hsession, -, -⟩ := pathView_inj (hquiet.views i)
    rw [hsame] at hstate
    rw [hsession]
    exact h.keyed i hstate
  pending := by
    intro i dest hdest
    obtain ⟨-, -, -, hsame, hchallenge⟩ := pathView_inj (hquiet.views i)
    rw [hsame] at hdest
    rw [hchallenge]
    exact h.pending i dest hdest
  unspent := by
    intro i dest hdest
    obtain ⟨-, -, -, hsame, hchallenge⟩ := pathView_inj (hquiet.views i)
    rw [hsame] at hdest
    rw [hchallenge]
    exact h.unspent i dest hdest

omit [DecidableEq Mac] in
theorem openCandidate_some {s : RecvSocket Mac} {d : Datagram} {candidates : List ℕ}
    {counter : ℕ} {opened : Datagram}
    (h : s.openCandidate suite d candidates = some (i, counter, opened)) :
    (s.peer i).hs.state = .established ∧
      openSecurePacket suite.cipher d ((s.peer i).session suite.cipher s.publicKey).session
        ((s.peer i).session suite.cipher s.publicKey).headerKey
        (laneFrom s.publicKey ((s.peer i).session suite.cipher s.publicKey).theirPk) =
          some (counter, opened) := by
  induction candidates with
  | nil => cases h
  | cons j rest ih =>
    rw [openCandidate] at h
    by_cases hstate : (s.peer j).hs.state = .established
    · have hready : ((s.peer j).session suite.cipher s.publicKey).established = true :=
        decide_eq_true hstate
      rw [hready, Bool.not_true, if_neg Bool.false_ne_true] at h
      cases hopen : openSecurePacket suite.cipher d
          ((s.peer j).session suite.cipher s.publicKey).session
          ((s.peer j).session suite.cipher s.publicKey).headerKey
          (laneFrom s.publicKey ((s.peer j).session suite.cipher s.publicKey).theirPk) with
      | none =>
        rw [hopen] at h
        exact ih h
      | some r =>
        rw [hopen] at h
        cases h
        exact ⟨hstate, hopen⟩
    · have hready : ((s.peer j).session suite.cipher s.publicKey).established = false :=
        decide_eq_false hstate
      rw [hready, Bool.not_false, if_pos rfl] at h
      exact ih h

/-- A mover's packet: nothing, the same challenge again, or a fresh one. -/
theorem Inv.step_armed (h : g.Inv) {d : Datagram} {c : RecvChoices}
    (hadm : g.Admissible suite (.datagram src d c))
    {out : List (RecvOut Mac)} (hlife : g.sock.life suite (.datagram src d c) = (s', out))
    {counter : ℕ} {opened : Datagram} {window : ReplayWindow}
    (hunknown : g.sock.slotOf src = none)
    (hmover : g.sock.openCandidate suite d (c.candidates.take tagCandidates) =
      some (i, counter, opened))
    (hslots : s'.slotOf = g.sock.slotOf) (hothers : RecvSocket.Elsewhere g.sock s' i)
    (hview : pathView (s'.peer i) =
      pathView (g.sock.rearmed suite src d c i window))
    (hsent : challenges out =
      if (g.sock.rearmed suite src d c i window).pathAddr = some src then
        [(g.sock.rearmed suite src d c i window).pathChallenge] else []) :
    (g.step suite (.datagram src d c)).Inv := by
  have hkey : (i, (g.sock.peer i).hs.session) ∈ g.keys := h.keyed i (openCandidate_some hmover).1
  have hinstalled : g.sock.installed s' src = none := by
    rw [installed, hslots, hunknown]
  have hrebound : g.sock.rebound s' src = none := rebound_of_slots hslots src
  have hmoverOf : g.sock.moverOf suite (.datagram src d c) = some i := by
    rw [moverOf, hmover]
    rfl
  have hstep : g.step suite (.datagram src d c) =
      { g with
        sock := s'
        sealed := sealings g.sock (g.sock.roundAfter s' g.round src (some i)) src (some i)
          (challenges out) ++ g.sealed
        round := g.sock.roundAfter s' g.round src (some i) } := by
    simp only [step, RecvSocket.PeerEvent.address, hlife, hmoverOf, hinstalled, hrebound]
    rfl
  rw [hstep, hsent]
  obtain ⟨-, -, -, hpath', -⟩ := pathView_inj hview
  have hquiet : pathView (g.sock.rearmed suite src d c i window) =
      pathView (g.sock.peer i) → RecvSocket.Quiet g.sock s' := by
    intro hsame
    refine ⟨hslots, fun j => ?_⟩
    by_cases hji : j = i
    · rw [hji, hview, hsame]
    · exact hothers j hji
  by_cases hagain : (g.sock.peer i).pathAddr = some src
  · -- the round goes on
    have hrearmed : g.sock.rearmed suite src d c i window = { g.sock.peer i with window := window } :=
      if_pos hagain
    have hround : g.sock.roundAfter s' g.round src (some i) = g.round := if_neg fun hr => hr.1 hagain
    have hset := h.quiet (hquiet (by rw [hrearmed]; rfl))
    rw [hround, hrearmed, if_pos hagain]
    apply hset.resend (x := ⟨i, (g.sock.peer i).hs.session, src, (g.sock.peer i).pathChallenge,
      g.round i⟩) hkey
    · dsimp only
      rw [hpath', hrearmed]
      exact hagain
    · dsimp only
      obtain ⟨-, -, -, -, hchallenge⟩ := pathView_inj hview
      rw [hchallenge, hrearmed]
    · rfl
  · cases hdrawn : c.challenge with
    | none =>
      have hrearmed : g.sock.rearmed suite src d c i window =
          { g.sock.peer i with window := window } := by
        rw [rearmed, armPath, if_neg hagain, hdrawn]
      have hround : g.sock.roundAfter s' g.round src (some i) = g.round := by
        apply if_neg
        rintro ⟨-, hnew⟩
        rw [hpath', hrearmed] at hnew
        exact hagain hnew
      rw [hround, hrearmed, if_neg hagain]
      exact h.quiet (hquiet (by rw [hrearmed]; rfl))
    | some challenge =>
      have hpathNew : (g.sock.rearmed suite src d c i window).pathAddr = some src := by
        rw [rearmed, armPath, if_neg hagain, hdrawn]
      have hchallengeNew : (g.sock.rearmed suite src d c i window).pathChallenge = challenge := by
        rw [rearmed, armPath, if_neg hagain, hdrawn]
      have hround : g.sock.roundAfter s' g.round src (some i) =
          update g.round i (g.round i + 1) := by
        apply if_pos
        exact ⟨hagain, by rw [hpath', hpathNew]⟩
      have hviewNew : pathView (s'.peer i) = pathView
          { g.sock.peer i with pathAddr := some src, pathChallenge := challenge } := by
        rw [hview, rearmed, armPath, if_neg hagain, hdrawn]
        rfl
      have hdraw := h.draw hkey (hadm.challenge challenge hdrawn) hslots hothers hviewNew
      rw [hround, if_pos hpathNew, hchallengeNew]
      simp only [sealings, List.map_cons, List.map_nil, update_self]
      exact hdraw

theorem Inv.step (h : g.Inv) (hadm : g.Admissible suite e) :
    (g.step suite e).Inv := by
  rcases life_cases suite g.sock e with
    ⟨src, d, c, rfl, hturn⟩ | ⟨hsent, ⟨addr, haddr, hput⟩ | hquiet⟩
  · generalize hlife : g.sock.life suite (.datagram src d c) = r at hturn
    obtain ⟨s', out⟩ := r
    generalize hout : challenges out = sent at hturn
    have hsettles : sent = [] → RecvSocket.Settles g.sock s' src →
        (∀ i, g.sock.rebound s' src = some i → (g.sock.peer i).pathAddr = some src ∧
          (s'.peer i).pathAddr = none) → (g.step suite (.datagram src d c)).Inv := by
      intro hnone hset hmoved
      apply h.step_settles hadm rfl
      · rw [hlife, hout, hnone]
      · rw [hlife]
        exact hset
      · rw [hlife]
        exact hmoved
    cases hturn with
    | quiet quiet =>
      apply hsettles rfl (.of_quiet quiet src)
      intro i hi
      rw [rebound_of_slots quiet.slots] at hi
      cases hi
    | handshake put =>
      apply hsettles rfl (.of_put put)
      intro i hi
      rw [rebound_of_put put] at hi
      cases hi
    | armed i counter opened window unknown mover slots others view =>
      exact h.step_armed hadm hlife unknown mover slots others view hout
    | answered i counter opened window unknown mover accepted channel completion =>
      apply hsettles rfl (.of_completion completion)
      exact moved_of_completion completion
    | late echo bound completion =>
      apply hsettles rfl (.of_completion completion)
      exact moved_of_completion completion
  · apply h.step_settles hadm haddr hsent (.of_put hput)
    intro i hi
    rw [rebound_of_put hput] at hi
    cases hi
  · cases haddr : e.address with
    | none =>
      have hstep : g.step suite e = { g with sock := (g.sock.life suite e).1 } := by
        simp only [Watched.step, haddr]
      rw [hstep]
      exact h.quiet hquiet
    | some src =>
      apply h.step_settles hadm haddr hsent (.of_quiet hquiet src)
      intro i hi
      rw [rebound_of_slots hquiet.slots] at hi
      cases hi

theorem Inv.run (s₀ : RecvSocket Mac) {es : List RecvSocket.PeerEvent}
    (hes : Along (Watched.step suite) (Admissible suite) (Watched.start suite s₀) es) :
    (Library.run (Watched.step suite) (Watched.start suite s₀) es).Inv :=
  run_invariant (Watched.step suite) Inv (Admissible suite) (fun _ _ hadm h => h.step hadm)
    (Inv.start suite s₀) hes

/-! ## Who moves a peer -/

variable {a : Address}

omit [DecidableEq Mac] in
theorem Inv.not_moved (h : g.Inv) (ha : g.sock.slotOf a = some i)
    (hne : dest ≠ a) : g.sock.slotOf dest ≠ some i := by
  intro hdest
  exact hne ((h.index dest i hdest).symm.trans (h.index a i ha))

omit [DecidableEq Mac] in
theorem Inv.put_keeps (h : g.Inv) (hput : RecvSocket.Put g.sock src s') (ha : g.sock.slotOf a = some i) (hne : dest ≠ a) :
    s'.slotOf dest ≠ some i := by
  have hbefore := h.not_moved ha hne
  cases hput with
  | kept quiet =>
    rw [quiet.slots]
    exact hbefore
  | registered j unknown unused slots others addr idle =>
    rw [slots]
    by_cases hdest : dest = src
    · rw [hdest, update_self, ne_eq, Option.some.injEq]
      intro hji
      rw [live, hji, h.index a i ha, ha] at unused
      simp at unused
    · rw [update_of_ne hdest]
      exact hbefore
  | removed slots views =>
    rw [slots]
    by_cases hdest : dest = src
    · rw [hdest, update_self]
      nofun
    · rw [update_of_ne hdest]
      exact hbefore
  | rekeyed j known slots others addr pathAddr pathChallenge =>
    rw [slots]
    exact hbefore

omit [DecidableEq Mac] in
/-- A completion moves the peer that waited for this echo, to the address it came from. -/
theorem Inv.completion_moves (h : g.Inv) {echo : List UInt8}
    (hcompletion : RecvSocket.Completion g.sock src echo s')
    (ha : g.sock.slotOf a = some i) (hne : dest ≠ a) (hdest : s'.slotOf dest = some i) :
    dest = src ∧ g.sock.rebound s' src = some i ∧ (g.sock.peer i).pathAddr = some src ∧
      (g.sock.peer i).pathChallenge = echo ∧ g.sock.slotOf src = none := by
  have hbefore := h.not_moved ha hne
  cases hcompletion with
  | missed quiet =>
    rw [quiet.slots] at hdest
    exact absurd hdest hbefore
  | ended j established pending challenge slots others cleared =>
    rw [slots] at hdest
    exact absurd hdest hbefore
  | moved j established pending challenge bound elsewhere unused slots others cleared =>
    have hrebound : g.sock.rebound s' src = some j := by
      rw [rebound, slots, update_self, unused]
      exact if_pos ⟨by rw [live, bound]; exact decide_eq_true rfl, by simp⟩
    rw [slots] at hdest
    by_cases hsrc : dest = src
    · rw [hsrc, update_self, Option.some.injEq] at hdest
      subst hdest
      exact ⟨hsrc, hrebound, pending, challenge, unused⟩
    · rw [update_of_ne hsrc] at hdest
      by_cases hleft : dest = (g.sock.peer j).addr
      · rw [hleft, update_self] at hdest
        cases hdest
      · rw [update_of_ne hleft] at hdest
        exact absurd hdest hbefore

/-- What moved a peer: a path response from its new address that opened under a session, and
whose echo the peer was waiting for. -/
theorem Inv.moved_by (h : g.Inv)
    (ha : g.sock.slotOf a = some i) (hne : dest ≠ a)
    (hdest : (g.sock.life suite e).1.slotOf dest = some i) :
    ∃ d c j counter opened window, e = .datagram dest d c ∧
      g.sock.openCandidate suite d (c.candidates.take tagCandidates) = some (j, counter, opened) ∧
      (g.sock.peer j).window.accept counter = some window ∧
      opened.secureChannel = secureChannelPathResp ∧
      g.sock.rebound (g.sock.life suite e).1 dest = some i ∧
      (g.sock.peer i).pathAddr = some dest ∧
      (g.sock.peer i).pathChallenge = echoOf
        ((opened.drop (opened.headSize + wireSecureChannelSize)).take 64) := by
  have hbefore := h.not_moved ha hne
  rcases life_cases suite g.sock e with
    ⟨src, d, c, rfl, hturn⟩ | ⟨-, ⟨addr, -, hput⟩ | hquiet⟩
  · generalize g.sock.life suite (.datagram src d c) = r at hturn hdest
    obtain ⟨s', out⟩ := r
    generalize challenges out = sent at hturn
    cases hturn with
    | quiet quiet =>
      rw [quiet.slots] at hdest
      exact absurd hdest hbefore
    | handshake put => exact absurd hdest (h.put_keeps put ha hne)
    | armed i counter opened window unknown mover slots others view =>
      rw [slots] at hdest
      exact absurd hdest hbefore
    | answered j counter opened window unknown mover accepted channel completion =>
      obtain ⟨rfl, hrebound, hpending, hecho, -⟩ := h.completion_moves completion ha hne hdest
      exact ⟨d, c, j, counter, opened, window, rfl, mover, accepted, channel, hrebound, hpending,
        hecho⟩
    | late echo bound completion =>
      obtain ⟨-, -, -, -, hunused⟩ := h.completion_moves completion ha hne hdest
      exact absurd hunused bound
  · exact absurd hdest (h.put_keeps hput ha hne)
  · rw [hquiet.slots] at hdest
    exact absurd hdest hbefore

end Steps

/-! ## Main theorem -/

/-- After any run, whatever moves an established peer to another address is a path response
that arrived from there, opened under the peer's current session, passed its replay window,
and carried the challenge this socket sealed for the peer, under that session, for that
address and in the round the peer is in.  No two rebindings were ever done by one
challenge. -/
theorem rebind_needs_echo (suite : RecvSuite Mac) (s₀ : RecvSocket Mac)
    (es : List RecvSocket.PeerEvent) (e : RecvSocket.PeerEvent)
    (hes : Along (step suite) (Admissible suite) (start suite s₀) es)
    (he : (run (step suite) (start suite s₀) es).Admissible suite e) :
    let g := run (step suite) (start suite s₀) es
    let g' := g.step suite e
    (∀ i a dest, g.sock.slotOf a = some i → (g.sock.peer i).hs.state = .established →
      g'.sock.slotOf dest = some i → dest ≠ a →
      ∃ d c counter opened window, e = .datagram dest d c ∧
        openSecurePacket suite.cipher d
            ((g.sock.peer i).session suite.cipher g.sock.publicKey).session
            ((g.sock.peer i).session suite.cipher g.sock.publicKey).headerKey
            (laneFrom g.sock.publicKey (g.sock.peer i).hs.theirPk) = some (counter, opened) ∧
        (g.sock.peer i).window.accept counter = some window ∧
        opened.secureChannel = secureChannelPathResp ∧
        ∃ x ∈ g.sealed, x.slot = i ∧ x.key = (g.sock.peer i).hs.session ∧ x.dest = dest ∧
          x.round = g.round i ∧ x.challenge = RecvSocket.echoOf
            ((opened.drop (opened.headSize + wireSecureChannelSize)).take 64) ∧
          g'.rebinds = (i, x.challenge) :: g.rebinds) ∧
    (g'.rebinds.map Prod.snd).Nodup := by
  intro g g'
  have hinv : g.Inv := Inv.run s₀ hes
  have hinv' : g'.Inv := hinv.step he
  refine ⟨?_, hinv'.once⟩
  intro i a dest ha _ hdest hne
  have hsock : g'.sock = (g.sock.life suite e).1 := step_sock suite g e
  rw [hsock] at hdest
  obtain ⟨d, c, j, counter, opened, window, rfl, hmover, haccept, hchannel, hrebound, hpending,
    hecho⟩ := hinv.moved_by ha hne hdest
  obtain ⟨hstate, hopen⟩ := openCandidate_some hmover
  obtain ⟨x, hx, hxkey, hxchallenge⟩ := he.echo (j, counter, opened) hmover hchannel
  obtain ⟨y, hy, hyslot, hydest, hychallenge, hyround⟩ := hinv.pending i dest hpending
  -- the echo belongs to the round of the peer that moved
  obtain ⟨hslot, hdests, hrounds⟩ := hinv.sameRound x hx y hy
    (by rw [hxchallenge, hychallenge, hecho])
  -- and the session that opened it belongs to that peer
  have hji : j = i := by
    have howner := hinv.owner x.slot j x.key (hinv.sealedKey x hx) (hxkey ▸ hinv.keyed j hstate)
    rw [← howner, hslot, hyslot]
  subst hji
  refine ⟨d, c, counter, opened, window, rfl, hopen, haccept, hchannel, x, hx, ?_, hxkey, ?_, ?_,
    hxchallenge, ?_⟩
  · rw [hslot, hyslot]
  · rw [hdests, hydest]
  · rw [hrounds, hyround]
  · have hrebinds : g'.rebinds = ((g.sock.rebound
        (g.sock.life suite (.datagram dest d c)).1 dest).map fun i =>
          (i, (g.sock.peer i).pathChallenge)).toList ++ g.rebinds := rfl
    rw [hrebinds, hrebound, hxchallenge, ← hecho]
    rfl

/-! ## One peer moves -/

instance (g : Watched Mac) (e : RecvSocket.PeerEvent) : Decidable (g.FreshChallenge e) := by
  cases e <;> unfold FreshChallenge <;> infer_instance

instance (g : Watched Mac) (e : RecvSocket.PeerEvent) : Decidable (g.FreshSession suite e) := by
  unfold FreshSession
  infer_instance

instance (g : Watched Mac) (e : RecvSocket.PeerEvent) : Decidable (g.OnlyEchoes suite e) := by
  cases e <;> unfold OnlyEchoes <;> infer_instance

instance (g : Watched Mac) (e : RecvSocket.PeerEvent) : Decidable (g.Admissible suite e) :=
  decidable_of_iff (g.FreshChallenge e ∧ g.FreshSession suite e ∧ g.OnlyEchoes suite e)
    ⟨fun h => ⟨h.1, h.2.1, h.2.2⟩, fun h => ⟨h.1, h.2, h.3⟩⟩

def hello : Datagram :=
  (ctrlInternal ||| ctrlUnsecure) :: 2 :: (List.replicate 8 0 ++ (List.replicate 32 2 ++
    (List.replicate 32 3 ++ (List.replicate 16 4 ++ [1, 0, 0, 0, 0, 0]))))

def moverPacket (counter : ℕ) (body : List UInt8) : Datagram :=
  sealSecurePacket .transparent ctrlTagged body
    ⟨[], List.replicate 32 0, [], counter, 1, zeroTag⟩

/-- It is heard from a new address, and challenged there. -/
def moveEvents : List RecvSocket.PeerEvent :=
  [.datagram knownAddress hello easyRecv,
    .datagram newAddress (moverPacket 1 [secureChannelApp, 42])
      { easyRecv with candidates := [1], challenge := some (List.replicate 16 9) }]

def moveAnswer : RecvSocket.PeerEvent :=
  .datagram newAddress
    (moverPacket 2 (secureChannelPathResp :: (zeroTag.bytes ++ List.replicate 16 9)))
    { easyRecv with candidates := [1], holders := [1] }

/-- The peer of slot 1 moves, by the one challenge sealed for it. -/
theorem rebind_needs_echo_moves :
    let g := run (step clearRecv) (start clearRecv quietSocket) moveEvents
    let g' := g.step clearRecv moveAnswer
    g'.sock.slotOf newAddress = some 1 ∧
      (∃ x ∈ g.sealed, x.slot = 1 ∧ x.dest = newAddress ∧ x.round = g.round 1 ∧
        g'.rebinds = [(1, x.challenge)]) ∧ (g'.rebinds.map Prod.snd).Nodup := by
  intro g g'
  have hes : Along (step clearRecv) (Admissible clearRecv) (start clearRecv quietSocket)
      moveEvents := by decide +kernel
  have he : g.Admissible clearRecv moveAnswer := by decide +kernel
  have hknown : g.sock.slotOf knownAddress = some 1 := by decide +kernel
  have hstate : (g.sock.peer 1).hs.state = .established := by decide +kernel
  have hmoved : g'.sock.slotOf newAddress = some 1 := by decide +kernel
  have hnone : g.rebinds = [] := by decide +kernel
  obtain ⟨hecho, honce⟩ := rebind_needs_echo clearRecv quietSocket moveEvents moveAnswer hes he
  obtain ⟨d, c, counter, opened, window, -, -, -, -, x, hx, hslot, -, hdest, hround, -, hlog⟩ :=
    hecho 1 knownAddress newAddress hknown hstate (by decide +kernel) (by decide)
  refine ⟨hmoved, ⟨x, hx, hslot, hdest, hround, ?_⟩, honce⟩
  rw [← hnone]
  exact hlog

end Watched

end BcpFlux.Socket
