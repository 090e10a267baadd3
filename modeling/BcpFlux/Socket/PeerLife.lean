import BcpFlux.Library.Runs
import BcpFlux.Socket.Incoming

/-! # The life of the peers of a socket

Every event that touches a peer slot: a datagram with the control message it may carry,
`Connect`, `RetryHandshakes`, a removal by the application or by the tick, and the start of
a pass.  What an event does to the index of addresses, to the sessions and to the path
validations is said once, for the datagrams by an inductive relation.
-/

namespace BcpFlux.Socket
open Library Wire Crypto Function

namespace RecvSocket
variable {Mac : Type} (suite : RecvSuite Mac) (s : RecvSocket Mac)

def live (i : ℕ) : Bool := decide (s.slotOf (s.peer i).addr = some i)

def free (c : RecvChoices) : RecvChoices :=
  { c with hs := { c.hs with registers := c.hs.registers && !s.live c.peerSlot } }

/-- `ProcessSecureControl` dispatches a path response. -/
def control (src : Address) (c : RecvChoices) (s : RecvSocket Mac) :
    RecvOut Mac → RecvSocket Mac
  | .control channel payload =>
    if channel = secureChannelPathResp then s.pathChallengeComplete src payload c else s
  | _ => s

/-! ## What a path response can do -/

/-- What addresses and validations depend on. -/
def pathView (p : RecvPeer Mac) :
    Address × HandshakeState × Key × Option Address × List UInt8 :=
  (p.addr, p.hs.state, p.hs.session, p.pathAddr, p.pathChallenge)

/-- The index, the sessions and the validations are as they were. -/
structure Quiet (s s' : RecvSocket Mac) : Prop where
  slots : s'.slotOf = s.slotOf
  views : ∀ i, pathView (s'.peer i) = pathView (s.peer i)

def Elsewhere (s s' : RecvSocket Mac) (i : ℕ) : Prop :=
  ∀ j, j ≠ i → pathView (s'.peer j) = pathView (s.peer j)

def echoOf (payload : List UInt8) : List UInt8 :=
  (payload.drop wirePeerTagSize).take pathChallengeSize

/-- What `PathChallenge_Complete` can do: nothing, end the round of one peer, or end it and
move the peer. -/
inductive Completion (s : RecvSocket Mac) (src : Address) (echo : List UInt8) :
    RecvSocket Mac → Prop where
  | missed (s' : RecvSocket Mac) (quiet : Quiet s s') : Completion s src echo s'
  | ended (s' : RecvSocket Mac) (i : ℕ) (established : (s.peer i).hs.state = .established)
      (pending : (s.peer i).pathAddr = some src) (challenge : (s.peer i).pathChallenge = echo)
      (slots : s'.slotOf = s.slotOf) (others : Elsewhere s s' i)
      (cleared : pathView (s'.peer i) = pathView { s.peer i with pathAddr := none }) :
      Completion s src echo s'
  | moved (s' : RecvSocket Mac) (i : ℕ) (established : (s.peer i).hs.state = .established)
      (pending : (s.peer i).pathAddr = some src) (challenge : (s.peer i).pathChallenge = echo)
      (bound : s.slotOf (s.peer i).addr = some i) (elsewhere : src ≠ (s.peer i).addr)
      (unused : s.slotOf src = none)
      (slots : s'.slotOf = update (update s.slotOf (s.peer i).addr none) src (some i))
      (others : Elsewhere s s' i)
      (cleared : pathView (s'.peer i) = pathView { s.peer i with pathAddr := none, addr := src }) :
      Completion s src echo s'

def challenges (out : List (RecvOut Mac)) : List (List UInt8) :=
  out.filterMap fun
    | .pathChallenge challenge => some challenge
    | _ => none

def rearmed (src : Address) (d : Datagram) (c : RecvChoices) (i : ℕ) (window : ReplayWindow) :
    RecvPeer Mac :=
  s.armPath suite { s.peer i with window := window } src
    ((d.drop wireSecureHeadSize).take wirePeerTagSize) c

variable {suite s} {s' s'' : RecvSocket Mac} {src : Address} {d : Datagram} {c : RecvChoices}

theorem Quiet.refl (s : RecvSocket Mac) : Quiet s s := ⟨rfl, fun _ => rfl⟩

theorem Quiet.trans (h : Quiet s s') (h' : Quiet s' s'') : Quiet s s'' :=
  ⟨h'.slots.trans h.slots, fun i => (h'.views i).trans (h.views i)⟩

theorem setPeer_self (s : RecvSocket Mac) (i : ℕ) (p : RecvPeer Mac) :
    (s.setPeer i p).peer i = p := update_self _ _ _

theorem setPeer_of_ne {i j : ℕ} (h : j ≠ i) (p : RecvPeer Mac) :
    (s.setPeer i p).peer j = s.peer j := update_of_ne h _ _

theorem quiet_setPeer {i : ℕ} {p : RecvPeer Mac} (h : pathView p = pathView (s.peer i)) :
    Quiet s (s.setPeer i p) := by
  constructor
  · rfl
  · intro j
    by_cases hj : j = i
    · rw [hj, setPeer_self]
      exact h
    · rw [setPeer_of_ne hj]

theorem elsewhere_setPeer (s : RecvSocket Mac) (i : ℕ) (p : RecvPeer Mac) :
    Elsewhere s (s.setPeer i p) i := by
  intro j hj
  rw [setPeer_of_ne hj]

theorem Completion.of_quiet {echo : List UInt8} (hquiet : Quiet s s')
    (h : Completion s' src echo s'') : Completion s src echo s'' := by
  have hview := hquiet.views
  simp only [pathView, Prod.mk.injEq] at hview
  cases h with
  | missed quiet => exact .missed _ (hquiet.trans quiet)
  | ended i established pending challenge slots others cleared =>
    obtain ⟨haddr, hstate, hsession, hpath, hchallenge⟩ := hview i
    apply Completion.ended _ i
    · rw [← hstate]
      exact established
    · rw [← hpath]
      exact pending
    · rw [← hchallenge]
      exact challenge
    · exact slots.trans hquiet.slots
    · intro j hj
      exact (others j hj).trans (hquiet.views j)
    · rw [cleared]
      simp only [pathView, haddr, hstate, hsession, hchallenge]
  | moved i established pending challenge bound elsewhere unused slots others cleared =>
    obtain ⟨haddr, hstate, hsession, hpath, hchallenge⟩ := hview i
    rw [haddr] at bound elsewhere slots
    rw [hquiet.slots] at bound unused slots
    apply Completion.moved _ i _ _ _ bound elsewhere unused slots
    · intro j hj
      exact (others j hj).trans (hquiet.views j)
    · rw [cleared]
      simp only [pathView, hstate, hsession, hchallenge]
    · rw [← hstate]
      exact established
    · rw [← hpath]
      exact pending
    · rw [← hchallenge]
      exact challenge

theorem pathChallengeComplete_completion (s : RecvSocket Mac) (src : Address)
    (payload : List UInt8) (c : RecvChoices) :
    Completion s src (echoOf payload) (s.pathChallengeComplete src payload c) := by
  rw [pathChallengeComplete]
  by_cases hshort : payload.length < wirePeerTagSize + pathChallengeSize
  · rw [if_pos hshort]
    exact .missed _ (Quiet.refl s)
  rw [if_neg hshort]
  dsimp only
  cases hfind : (c.holders.take tagCandidates).find? fun i =>
      decide ((s.peer i).hs.state = .established) && decide ((s.peer i).pathAddr = some src) &&
        decide ((s.peer i).pathChallenge = (payload.drop wirePeerTagSize).take pathChallengeSize) with
  | none => exact .missed _ (Quiet.refl s)
  | some i =>
    have hmatch := List.find?_some hfind
    simp only [Bool.and_eq_true, decide_eq_true_eq] at hmatch
    obtain ⟨⟨hstate, hpending⟩, hchallenge⟩ := hmatch
    dsimp only
    obtain ⟨s₁, hs₁⟩ : ∃ s₁, s₁ = s.setPeer i
        { s.peer i with pathAddr := none, theirTagStep := (s.peer i).pathStep } := ⟨_, rfl⟩
    have hslots : s₁.slotOf = s.slotOf := by
      rw [hs₁]
      rfl
    have hself : s₁.peer i =
        { s.peer i with pathAddr := none, theirTagStep := (s.peer i).pathStep } := by
      rw [hs₁]
      exact update_self _ _ _
    have hothers : Elsewhere s s₁ i := by
      rw [hs₁]
      exact elsewhere_setPeer s i _
    have hended : Completion s src (echoOf payload) s₁ := by
      apply Completion.ended _ i hstate hpending hchallenge hslots hothers
      rw [hself]
      rfl
    rw [← hs₁, updateAddress]
    have haddr : (s₁.peer i).addr = (s.peer i).addr := by rw [hself]
    rw [haddr, hslots]
    by_cases hbound : s.slotOf (s.peer i).addr = some i
    · rw [if_neg (not_not_intro hbound)]
      by_cases hsame : src = (s.peer i).addr
      · rw [if_pos hsame]
        exact hended
      · rw [if_neg hsame]
        cases hunused : s.slotOf src with
        | some j =>
          rw [if_pos (Option.isSome_some)]
          exact hended
        | none =>
          rw [if_neg (by simp)]
          apply Completion.moved _ i hstate hpending hchallenge hbound hsame hunused rfl
          · intro j hj
            simp only [update_of_ne hj]
            exact hothers j hj
          · simp only [update_self, hself]
            rfl
    · rw [if_pos hbound]
      exact hended

/-! ## What a handshake can do -/

/-- What writing a handshake's entry back can do. -/
inductive Put (s : RecvSocket Mac) (src : Address) : RecvSocket Mac → Prop where
  | kept (s' : RecvSocket Mac) (quiet : Quiet s s') : Put s src s'
  | registered (s' : RecvSocket Mac) (i : ℕ) (unknown : s.slotOf src = none)
      (unused : s.live i = false) (slots : s'.slotOf = update s.slotOf src (some i))
      (others : Elsewhere s s' i) (addr : (s'.peer i).addr = src)
      (idle : (s'.peer i).pathAddr = none) : Put s src s'
  | removed (s' : RecvSocket Mac) (slots : s'.slotOf = update s.slotOf src none)
      (views : ∀ i, pathView (s'.peer i) = pathView (s.peer i)) : Put s src s'
  | rekeyed (s' : RecvSocket Mac) (i : ℕ) (known : s.slotOf src = some i)
      (slots : s'.slotOf = s.slotOf) (others : Elsewhere s s' i)
      (addr : (s'.peer i).addr = (s.peer i).addr)
      (pathAddr : (s'.peer i).pathAddr = (s.peer i).pathAddr)
      (pathChallenge : (s'.peer i).pathChallenge = (s.peer i).pathChallenge) : Put s src s'

theorem rewriteEntry_path (p : RecvPeer Mac) (e : HsEntry Mac) :
    (rewriteEntry p e).addr = p.addr ∧ (rewriteEntry p e).pathAddr = p.pathAddr ∧
      (rewriteEntry p e).pathChallenge = p.pathChallenge := by
  rw [rewriteEntry]
  split_ifs <;> exact ⟨rfl, rfl, rfl⟩

theorem putNode_put {node : HsNode Mac}
    (hfree : s.slotOf src = none → node.entry ≠ none → s.live c.peerSlot = false) :
    Put s src (s.putNode src node c) := by
  rw [putNode]
  cases hslot : s.slotOf src with
  | none =>
    cases hentry : node.entry with
    | none => exact .kept _ ⟨rfl, fun _ => rfl⟩
    | some e =>
      have hunused := hfree hslot (by simp [hentry])
      apply Put.registered _ c.peerSlot hslot hunused rfl
      · intro j hj
        simp only [registerPeer, update_of_ne hj]
      · simp only [registerPeer, update_self]
      · simp only [registerPeer, update_self]
  | some i =>
    cases hentry : node.entry with
    | none => exact .removed _ rfl fun _ => rfl
    | some e =>
      obtain ⟨haddr, hpath, hchallenge⟩ := rewriteEntry_path (s.peer i) e
      apply Put.rekeyed _ i hslot
      · rfl
      · intro j hj
        simp only [setPeer, update_of_ne hj]
      · simp only [setPeer, update_self]
        exact haddr
      · simp only [setPeer, update_self]
        exact hpath
      · simp only [setPeer, update_self]
        exact hchallenge

theorem handle_registers [DecidableEq Mac] {handshake : HandshakeSuite Mac} {me : HsNode Mac}
    {m : HsMessage Mac} {choices : HsChoices} (hnone : me.entry = none)
    (h : (me.handle handshake m choices).1.entry ≠ none) : choices.registers = true := by
  by_contra hregisters
  apply h
  cases m with
  | init => exact hnone
  | challenge =>
    simp only [HsNode.handle, HsNode.respond, hnone]
    split_ifs
    · exact hnone
    · rfl
    · rfl
  | finish f =>
    simp only [HsNode.handle, HsNode.complete, hnone]
  | res r =>
    simp only [HsNode.handle, HsNode.validate, HsNode.judgeRes, hnone, if_neg hregisters]
    split_ifs <;> exact hnone

/-! ## Datagrams -/

section Events
variable [DecidableEq Mac] (suite s)

/-- One datagram, with the control message it carried. -/
def turn (src : Address) (d : Datagram) (c : RecvChoices) : RecvSocket Mac × List (RecvOut Mac) :=
  let r := s.receive suite src d (s.free c)
  (r.2.foldl (control src c) r.1, r.2)

inductive PeerEvent where
  | datagram (src : Address) (d : Datagram) (c : RecvChoices)
  | connect (addr : Address) (c : RecvChoices)
  | retry (addr : Address) (c : RecvChoices)
  /-- `RemovePeer`, called by the application or for a peer that fell silent. -/
  | remove (addr : Address)
  /-- A pass of `Update` begins. -/
  | pass (migrateBudget : ℕ)

def PeerEvent.address : PeerEvent → Option Address
  | .datagram src _ _ => some src
  | .connect addr _ => some addr
  | .retry addr _ => some addr
  | .remove addr => some addr
  | .pass _ => none

/-- The socket after an event, and what the event sent or handed on. -/
def life : PeerEvent → RecvSocket Mac × List (RecvOut Mac)
  | .datagram src d c => s.turn suite src d c
  | .connect addr c =>
    (s.putNode addr ((s.nodeAt addr).connect suite.handshake (s.free c).hs.registers).1 c, [])
  | .retry addr c => (s.putNode addr ((s.nodeAt addr).retry).1 c, [])
  | .remove addr =>
    match s.slotOf addr with
    | none => (s, [])
    | some i => (s.removePeer addr i, [])
  | .pass migrateBudget => ({ s with migrateBudget := migrateBudget }, [])

/-- What a datagram can do, and the path challenges it makes the socket seal. -/
inductive Turn (src : Address) (d : Datagram) (c : RecvChoices) :
    RecvSocket Mac → List (List UInt8) → Prop where
  | quiet (s' : RecvSocket Mac) (quiet : Quiet s s') : Turn src d c s' []
  | handshake (s' : RecvSocket Mac) (put : Put s src s') : Turn src d c s' []
  /-- A mover's packet: its round goes on, or a new one begins. -/
  | armed (s' : RecvSocket Mac) (i counter : ℕ) (opened : Datagram) (window : ReplayWindow)
      (unknown : s.slotOf src = none)
      (mover : s.openCandidate suite d (c.candidates.take tagCandidates) = some (i, counter, opened))
      (slots : s'.slotOf = s.slotOf) (others : Elsewhere s s' i)
      (view : pathView (s'.peer i) = pathView (s.rearmed suite src d c i window)) :
      Turn src d c s' (if (s.rearmed suite src d c i window).pathAddr = some src then
        [(s.rearmed suite src d c i window).pathChallenge] else [])
  /-- A mover's path response. -/
  | answered (s' : RecvSocket Mac) (i counter : ℕ) (opened : Datagram) (window : ReplayWindow)
      (unknown : s.slotOf src = none)
      (mover : s.openCandidate suite d (c.candidates.take tagCandidates) = some (i, counter, opened))
      (accepted : (s.peer i).window.accept counter = some window)
      (channel : opened.secureChannel = secureChannelPathResp)
      (completion : Completion s src
        (echoOf ((opened.drop (opened.headSize + wireSecureChannelSize)).take 64)) s') :
      Turn src d c s' []
  /-- A path response from an address that is bound. -/
  | late (s' : RecvSocket Mac) (echo : List UInt8) (bound : s.slotOf src ≠ none)
      (completion : Completion s src echo s') : Turn src d c s' []


end Events


theorem pathView_stampSeen (p : RecvPeer Mac) (stamp : ℕ) :
    pathView (s.stampSeen p stamp) = pathView p := by
  rw [stampSeen]
  split_ifs <;> rfl

theorem preProcessIn_cases (suite : RecvSuite Mac) (s : RecvSocket Mac) (src : Address)
    (d : Datagram) (c : RecvChoices) :
    (Quiet s (s.preProcessIn suite src d c).1 ∧ (s.preProcessIn suite src d c).2.2 = [] ∧
      ∀ p, (s.preProcessIn suite src d c).2.1 = some p → p.secureChannel ≠ secureChannelApp →
        s.slotOf src ≠ none) ∨
    s.slotOf src = none ∧ s.preProcessIn suite src d c = s.tryMigrate suite src d c := by
  rw [preProcessIn]
  by_cases hsecure : d.isSecure = true
  · rw [if_neg (by simp [hsecure])]
    by_cases hlen : d.length < secureHeaderSize d
    · rw [if_pos hlen]
      exact Or.inl ⟨Quiet.refl s, rfl, by simp⟩
    rw [if_neg hlen]
    cases hslot : s.slotOf src with
    | none =>
      cases s.migration && d.isTagged with
      | true => exact Or.inr ⟨rfl, rfl⟩
      | false => exact Or.inl ⟨Quiet.refl s, rfl, by simp⟩
    | some i =>
      dsimp only
      left
      cases verify suite.cipher s.publicKey ((s.peer i).session suite.cipher s.publicKey)
          (s.peer i).window d with
      | none => exact ⟨Quiet.refl s, rfl, by simp⟩
      | some r =>
        refine ⟨quiet_setPeer ?_, rfl, by simp⟩
        rw [pathView_stampSeen]
        rfl
  · have hchannel : d.secureChannel = secureChannelApp := by
      simp [Datagram.secureChannel, hsecure]
    rw [if_pos (by simp [hsecure])]
    left
    by_cases haccept : s.acceptUnsecureFromUnknown = true
    · rw [if_pos haccept]
      exact ⟨Quiet.refl s, rfl, fun p hp hne => absurd (Option.some.inj hp ▸ hchannel) hne⟩
    rw [if_neg haccept]
    cases hslot : s.slotOf src with
    | none => exact ⟨Quiet.refl s, rfl, by simp⟩
    | some i => exact ⟨quiet_setPeer (pathView_stampSeen _ _), rfl, by simp⟩

theorem openCandidate_budget (suite : RecvSuite Mac) (s : RecvSocket Mac) (budget : ℕ)
    (d : Datagram) (candidates : List ℕ) :
    { s with migrateBudget := budget }.openCandidate suite d candidates =
      s.openCandidate suite d candidates := by
  induction candidates with
  | nil => rfl
  | cons i rest ih =>
    rw [openCandidate, openCandidate, ih]

/-- None of the messages is a control message. -/
def Silent (out : List (RecvOut Mac)) : Prop :=
  ∀ o ∈ out, ∀ channel payload, o ≠ .control channel payload

theorem foldl_control_of_silent {out : List (RecvOut Mac)} (h : Silent out) (src : Address)
    (c : RecvChoices) (s : RecvSocket Mac) : out.foldl (control src c) s = s := by
  induction out with
  | nil => rfl
  | cons o rest ih =>
    have hsame : control src c s o = s := by
      cases o with
      | control channel payload => exact absurd rfl (h _ List.mem_cons_self channel payload)
      | flowData => rfl
      | app => rfl
      | reject => rfl
      | handshake => rfl
      | pathChallenge => rfl
    rw [List.foldl_cons, hsame]
    exact ih fun o ho => h o (List.mem_cons_of_mem _ ho)

/-- What `TryMigrate` can do. -/
inductive Migration (suite : RecvSuite Mac) (s : RecvSocket Mac) (src : Address) (d : Datagram)
    (c : RecvChoices) : RecvSocket Mac × Option Datagram × List (RecvOut Mac) → Prop where
  | refused (s' : RecvSocket Mac) (quiet : Quiet s s') : Migration suite s src d c (s', none, [])
  | armed (s' : RecvSocket Mac) (i counter : ℕ) (opened : Datagram) (window : ReplayWindow)
      (passed : Option Datagram)
      (mover : s.openCandidate suite d (c.candidates.take tagCandidates) = some (i, counter, opened))
      (app : ∀ p, passed = some p → p.secureChannel = secureChannelApp)
      (slots : s'.slotOf = s.slotOf) (others : Elsewhere s s' i)
      (view : pathView (s'.peer i) = pathView (s.rearmed suite src d c i window)) :
      Migration suite s src d c (s', passed,
        if (s.rearmed suite src d c i window).pathAddr = some src then
          [.pathChallenge (s.rearmed suite src d c i window).pathChallenge] else [])
  | answered (s' : RecvSocket Mac) (i counter : ℕ) (opened : Datagram) (window : ReplayWindow)
      (mover : s.openCandidate suite d (c.candidates.take tagCandidates) = some (i, counter, opened))
      (accepted : (s.peer i).window.accept counter = some window)
      (channel : opened.secureChannel = secureChannelPathResp)
      (completion : Completion s src
        (echoOf ((opened.drop (opened.headSize + wireSecureChannelSize)).take 64)) s') :
      Migration suite s src d c (s', none, [])

theorem tryMigrate_migration (suite : RecvSuite Mac) (s : RecvSocket Mac) (src : Address)
    (d : Datagram) (c : RecvChoices) :
    Migration suite s src d c (s.tryMigrate suite src d c) := by
  rw [tryMigrate]
  by_cases hbudget : s.migrateBudget = 0
  · rw [if_pos hbudget]
    exact .refused s (Quiet.refl s)
  rw [if_neg hbudget]
  extract_lets s₁
  have hquiet : Quiet s s₁ := ⟨rfl, fun _ => rfl⟩
  have hpeer : s₁.peer = s.peer := rfl
  have hopen : s₁.openCandidate suite d (c.candidates.take tagCandidates) =
      s.openCandidate suite d (c.candidates.take tagCandidates) :=
    openCandidate_budget suite s _ d _
  have hrearmed : ∀ i window, s₁.armPath suite { s.peer i with window := window } src
      ((d.drop wireSecureHeadSize).take wirePeerTagSize) c =
      s.rearmed suite src d c i window := fun _ _ => rfl
  clear_value s₁
  rw [hopen]
  cases hmover : s.openCandidate suite d (c.candidates.take tagCandidates) with
  | none => exact .refused s₁ hquiet
  | some found =>
    obtain ⟨i, counter, opened⟩ := found
    dsimp only
    rw [hpeer]
    cases haccept : (s.peer i).window.accept counter with
    | none => exact .refused s₁ hquiet
    | some window =>
      dsimp only
      by_cases hresp : opened.secureChannel = secureChannelPathResp
      · rw [if_pos hresp]
        have hwindow : Quiet s (s₁.setPeer i { s.peer i with window := window }) :=
          hquiet.trans (quiet_setPeer (by rw [hpeer]; rfl))
        exact .answered _ i counter opened window hmover haccept hresp
          ((pathChallengeComplete_completion _ src _ c).of_quiet hwindow)
      · rw [if_neg hresp]
        rw [hrearmed]
        apply Migration.armed _ i counter opened window _ hmover
        · intro p hp
          split_ifs at hp with happ
          exact Option.some.inj hp ▸ happ
        · exact hquiet.slots
        · intro j hj
          rw [setPeer_of_ne hj, hpeer]
        · rw [setPeer_self]

theorem processFlowIn_quiet (s : RecvSocket Mac) (src : Address) (d : Datagram) (c : RecvChoices) :
    Quiet s (s.processFlowIn src d c).1 ∧ Silent (s.processFlowIn src d c).2 ∧
      challenges (s.processFlowIn src d c).2 = [] := by
  have hnothing : Quiet s s ∧ Silent ([] : List (RecvOut Mac)) ∧
      challenges ([] : List (RecvOut Mac)) = [] := ⟨Quiet.refl s, nofun, rfl⟩
  rw [processFlowIn]
  split_ifs
  · exact hnothing
  · exact hnothing
  · exact hnothing
  cases s.slotOf src with
  | none => exact hnothing
  | some i =>
    dsimp only
    by_cases hstate : (s.peer i).hs.state ≠ .established
    · rw [if_pos hstate]
      exact hnothing
    rw [if_neg hstate]
    generalize Flow.flowIn s.limits c.flow (s.inDir i) ⟨i, src, (s.peer i).hs.id.getD ⟨[]⟩⟩ d.flowId
      d.flowData d.flowSeq c.slot = r
    refine ⟨⟨rfl, fun _ => rfl⟩, ?_, ?_⟩
    · intro o ho channel payload
      rcases List.mem_append.mp ho with ho | ho
      · split_ifs at ho
        · rw [List.mem_singleton.mp ho]
          nofun
        · cases ho
      · obtain ⟨ready, -, rfl⟩ := List.mem_map.mp ho
        nofun
    · split_ifs <;> simp [challenges, List.filterMap_map]

theorem foldl_deliver {s : RecvSocket Mac} {out more : List (RecvOut Mac)} (h : Silent out)
    (hmore : Silent more) (src : Address) (c : RecvChoices) :
    (out ++ more).foldl (control src c) s = s := by
  apply foldl_control_of_silent
  intro o ho
  rcases List.mem_append.mp ho with ho | ho
  · exact h o ho
  · exact hmore o ho

variable [DecidableEq Mac]

theorem turn_turn (suite : RecvSuite Mac) (s : RecvSocket Mac) (src : Address) (d : Datagram)
    (c : RecvChoices) :
    Turn suite s src d c (s.turn suite src d c).1 (challenges (s.turn suite src d c).2) := by
  rw [turn, receive]
  by_cases hinternal : d.isInternal = true
  · rw [if_pos hinternal]
    by_cases hsecure : d.isSecure = true
    · rw [if_pos hsecure]
      exact .quiet s (Quiet.refl s)
    · rw [if_neg hsecure, processInternal]
      cases parseInternal suite.readMac d with
      | none => exact .quiet s (Quiet.refl s)
      | some m =>
        have hput : Put s src
            (s.putNode src ((s.nodeAt src).handle suite.handshake m (s.free c).hs).1 c) := by
          apply putNode_put
          intro hslot hentry
          have hregisters := handle_registers (by simp [nodeAt, hslot]) hentry
          simp only [free, Bool.and_eq_true, Bool.not_eq_true'] at hregisters
          exact hregisters.2
        dsimp only
        cases ((s.nodeAt src).handle suite.handshake m (s.free c).hs).2 with
        | none => exact .handshake _ hput
        | some answer => exact .handshake _ hput
  rw [if_neg hinternal]
  rcases preProcessIn_cases suite s src d (s.free c) with
    ⟨hquiet, hout, hbound⟩ | ⟨hunknown, hgate⟩
  · generalize s.preProcessIn suite src d (s.free c) = r at hquiet hout hbound
    obtain ⟨s₁, passed, out⟩ := r
    subst hout
    cases passed with
    | none => exact .quiet s₁ hquiet
    | some p =>
      dsimp only
      by_cases hcontrol : p.secureChannel ≠ secureChannelApp
      · rw [if_pos hcontrol, processSecureControl]
        split_ifs
        · exact .quiet s₁ hquiet
        · by_cases hresp : p.secureChannel = secureChannelPathResp
          · have hstep : ([] ++ [RecvOut.control p.secureChannel (p.drop p.contentOffset)]).foldl
                (control src c) s₁ = s₁.pathChallengeComplete src (p.drop p.contentOffset) c :=
              if_pos hresp
            rw [hstep]
            exact .late _ _ (hbound p rfl hcontrol)
              ((pathChallengeComplete_completion s₁ src _ c).of_quiet hquiet)
          · have hstep : ([] ++ [RecvOut.control p.secureChannel (p.drop p.contentOffset)]).foldl
                (control src c) s₁ = s₁ := if_neg hresp
            rw [hstep]
            exact .quiet s₁ hquiet
      · rw [if_neg hcontrol]
        by_cases hflow : p.hasFlow = true
        · obtain ⟨hflowQuiet, hsilent, hnone⟩ := processFlowIn_quiet s₁ src p (s.free c)
          rw [if_pos hflow, List.nil_append, foldl_control_of_silent hsilent, hnone]
          exact .quiet _ (hquiet.trans hflowQuiet)
        · rw [if_neg hflow]
          cases (s.free c).queue with
          | true => exact .quiet s₁ hquiet
          | false => exact .quiet s₁ hquiet
  · have hmigration := tryMigrate_migration suite s src d (s.free c)
    rw [hgate]
    generalize s.tryMigrate suite src d (s.free c) = r at hmigration
    cases hmigration with
    | refused s' quiet => exact .quiet s' quiet
    | answered s' i counter opened window mover accepted channel completion =>
      exact .answered s' i counter opened window hunknown mover accepted channel completion
    | armed s' i counter opened window passed mover app slots others view =>
      -- the challenge goes out; a packet that is handed on is application data
      have hrearmed : s.rearmed suite src d (s.free c) i window = s.rearmed suite src d c i window :=
        rfl
      rw [hrearmed] at view ⊢
      generalize hout : (if (s.rearmed suite src d c i window).pathAddr = some src then
        ([RecvOut.pathChallenge (s.rearmed suite src d c i window).pathChallenge] :
          List (RecvOut Mac)) else []) = out
      have hsilent : Silent out := by
        intro o ho channel payload
        rw [← hout] at ho
        split_ifs at ho
        · rw [List.mem_singleton.mp ho]
          nofun
        · cases ho
      have hsent : challenges out = if (s.rearmed suite src d c i window).pathAddr = some src then
          [(s.rearmed suite src d c i window).pathChallenge] else [] := by
        rw [← hout]
        split_ifs <;> rfl
      have harmed : ∀ s'' more, Quiet s' s'' → challenges more = [] →
          Turn suite s src d c s'' (challenges (out ++ more)) := by
        intro s'' more hquiet hmore
        have happend : challenges (out ++ more) = challenges out := by
          rw [challenges, List.filterMap_append]
          exact (congrArg (challenges out ++ ·) hmore).trans (List.append_nil _)
        rw [happend, hsent]
        exact .armed s'' i counter opened window hunknown mover (hquiet.slots.trans slots)
          (fun j hj => (hquiet.views j).trans (others j hj)) ((hquiet.views i).trans view)
      cases passed with
      | none =>
        have hnone := harmed s' [] (Quiet.refl s') rfl
        rw [List.append_nil] at hnone
        rw [foldl_control_of_silent hsilent]
        exact hnone
      | some p =>
        dsimp only
        rw [if_neg (not_not_intro (app p rfl))]
        by_cases hflow : p.hasFlow = true
        · obtain ⟨hquiet, hmore, hnone⟩ := processFlowIn_quiet s' src p (s.free c)
          rw [if_pos hflow, foldl_deliver hsilent hmore]
          exact harmed _ _ hquiet hnone
        · rw [if_neg hflow]
          have hmore : Silent (if (s.free c).queue = true then ([RecvOut.app p] :
              List (RecvOut Mac)) else []) := by
            intro o ho channel payload
            split_ifs at ho
            · rw [List.mem_singleton.mp ho]
              nofun
            · cases ho
          rw [foldl_deliver hsilent hmore]
          apply harmed _ _ (Quiet.refl s')
          split_ifs <;> rfl

theorem life_cases (suite : RecvSuite Mac) (s : RecvSocket Mac) (e : PeerEvent) :
    (∃ src d c, e = .datagram src d c ∧
      Turn suite s src d c (s.life suite e).1 (challenges (s.life suite e).2)) ∨
    challenges (s.life suite e).2 = [] ∧
      ((∃ addr, e.address = some addr ∧ Put s addr (s.life suite e).1) ∨
        Quiet s (s.life suite e).1) := by
  cases e with
  | datagram src d c => exact Or.inl ⟨src, d, c, rfl, turn_turn suite s src d c⟩
  | connect addr c =>
    refine Or.inr ⟨rfl, Or.inl ⟨addr, rfl, ?_⟩⟩
    apply putNode_put
    intro hslot hentry
    by_contra hlive
    apply hentry
    have hbusy : (s.free c).hs.registers = false := by
      simp only [Bool.not_eq_false] at hlive
      simp [free, hlive]
    simp [HsNode.connect, hbusy, nodeAt, hslot]
  | retry addr c =>
    refine Or.inr ⟨rfl, Or.inl ⟨addr, rfl, ?_⟩⟩
    apply putNode_put
    intro hslot hentry
    exact absurd (by simp [HsNode.retry, nodeAt, hslot]) hentry
  | remove addr =>
    rw [life]
    cases hslot : s.slotOf addr with
    | none => exact Or.inr ⟨rfl, Or.inr (Quiet.refl s)⟩
    | some i => exact Or.inr ⟨rfl, Or.inl ⟨addr, rfl, .removed _ rfl fun _ => rfl⟩⟩
  | pass migrateBudget => exact Or.inr ⟨rfl, Or.inr ⟨rfl, fun _ => rfl⟩⟩

end RecvSocket

end BcpFlux.Socket
