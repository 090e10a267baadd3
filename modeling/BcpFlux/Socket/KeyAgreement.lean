import BcpFlux.Socket.HandshakeMoves

/-! # Key agreement

Every step of the link that disturbs no session keeps the two sockets paired, so two
established entries hold one key.  A crossed open whose losing `HS_RES` arrives late is
a run that ends with two keys.
-/

namespace BcpFlux.Socket
open Library Crypto Function

section Agreement
variable {Mac : Type} {suite : HandshakeSuite Mac} [DecidableEq Mac]

/-! ## Whole runs -/

namespace HsLink

def Paired (suite : HandshakeSuite Mac) (s : HsLink Mac) : Prop :=
  ∀ x, (s.node x).side = x ∧ PairInv suite (s.node x) (s.node !x) s.net

variable {s : HsLink Mac}

theorem Paired.put (h : s.Paired suite) {me : HsNode Mac} {x : Bool} {net : List (HsPacket Mac)}
    {out : Option (HsMessage Mac)}
    (hmove : Move suite (s.node x) (s.node !x) s.net me out) (hnet : ∀ p ∈ net, p ∈ s.net) :
    (s.put me x net out).Paired suite := by
  have hpair := (h x).2.move hmove hnet
  rw [(h !x).1] at hpair
  have hother : update s.node x me (!x) = s.node !x :=
    update_of_ne (by cases x <;> decide) _ _
  intro y
  by_cases hy : y = x
  · subst hy
    simp only [HsLink.put, update_self, hother]
    exact ⟨hmove.same.side_eq.trans (h y).1, hpair⟩
  · obtain rfl : y = !x := by cases x <;> cases y <;> simp_all
    simp only [HsLink.put, Bool.not_not, update_self, hother]
    exact ⟨(h !x).1, hpair.symm⟩

theorem Paired.weaken (h : s.Paired suite) {net : List (HsPacket Mac)}
    (hnet : ∀ p ∈ net, p ∈ s.net) : HsLink.Paired suite { s with net := net } := by
  intro x
  have hstay : Move suite (s.node x) (s.node !x) s.net (s.node x) none :=
    (h x).2.stay (.refl _) rfl nofun
  have hpair := (h x).2.move hstay hnet
  simp only [Option.map_none, Option.toList_none, List.append_nil] at hpair
  exact ⟨(h x).1, hpair⟩

theorem Paired.deliver (h : s.Paired suite) {i : ℕ} {c : HsChoices} {p : HsPacket Mac}
    (hp : s.net[i]? = some p) (hok : s.Undisturbed suite (.deliver i c)) :
    Move suite (s.node p.dest) (s.node !p.dest) s.net
      ((s.node p.dest).handle suite p.message c).1
      ((s.node p.dest).handle suite p.message c).2 := by
  obtain ⟨dest, m⟩ := p
  refine (h dest).2.handle c ?_ ?_
  · rw [(h dest).1]
    exact List.mem_of_getElem? hp
  · rintro r rfl hcommit
    simp only [Undisturbed, disturbs, hp, hcommit, Bool.true_and, Bool.or_eq_false_iff,
      Bool.not_eq_false', unanswered, List.all_eq_true] at hok
    refine ⟨Option.isSome_eq_false_iff.mp hok.1 |> Option.isNone_iff_eq_none.mp, fun f hf => ?_⟩
    rw [(h !dest).1] at hf
    simpa using hok.2 _ hf

theorem Paired.step (h : s.Paired suite) {e : HsEvent} (hok : s.Undisturbed suite e) :
    (s.step suite e).Paired suite := by
  have hinit : ∀ (b : Bool) m, (if b then some .init else none) = some m →
      m = (.init : HsMessage Mac) := by
    intro b m hm
    cases b <;> cases hm
    rfl
  cases e with
  | connect side registers =>
    exact h.put ((h side).2.connect registers (hinit _)) fun _ hp => hp
  | retry side => exact h.put ((h side).2.retry (hinit _)) fun _ hp => hp
  | deliver i c =>
    rw [HsLink.step]
    split
    · exact h
    · next p hp => exact h.put (h.deliver hp hok) fun _ => List.mem_of_mem_eraseIdx
  | duplicate i =>
    refine h.weaken fun p hp => ?_
    rcases List.mem_append.mp hp with hp | hp
    · exact hp
    · exact List.mem_of_getElem? (Option.mem_toList.mp hp)
  | drop i => exact h.weaken fun _ => List.mem_of_mem_eraseIdx
  | confirm side => exact h.put (h side).2.confirm fun _ hp => hp

/-- Two sockets that have never heard of each other. -/
def initial (suite : HandshakeSuite Mac) (secretKey ownTag : Bool → Key) (version : Bool → ℕ) :
    HsLink Mac where
  node side := ⟨side, secretKey side, suite.publicOf (secretKey side), ownTag side, version side,
    none, 0⟩
  net := []

theorem paired_initial (secretKey ownTag : Bool → Key) (version : Bool → ℕ) :
    (initial suite secretKey ownTag version).Paired suite := by
  have hside : ∀ x, SideInv suite ((initial suite secretKey ownTag version).node x)
      ((initial suite secretKey ownTag version).node !x) [] :=
    fun _ => ⟨rfl, nofun, nofun, nofun, nofun, nofun⟩
  intro x
  have hother := hside !x
  rw [Bool.not_not] at hother
  exact ⟨rfl, hside x, hother, rfl, nofun⟩

/-- Key agreement: as long as no `HS_RES` replaces a session that its sender holds or is
about to take, two established entries hold one key, in every state reached. -/
theorem established_agree (suite : HandshakeSuite Mac) (secretKey ownTag : Bool → Key)
    (version : Bool → ℕ) (es : List HsEvent)
    (hes : Along (HsLink.step suite) (HsLink.Undisturbed suite)
      (initial suite secretKey ownTag version) es) (k k' : Key)
    (hk : ((run (HsLink.step suite) (initial suite secretKey ownTag version) es).node
      false).session? = some k)
    (hk' : ((run (HsLink.step suite) (initial suite secretKey ownTag version) es).node
      true).session? = some k') : k = k' := by
  have hpaired : (run (HsLink.step suite) (initial suite secretKey ownTag version) es).Paired
      suite :=
    run_invariant _ (HsLink.Paired suite) _ (fun _ _ hok h => Paired.step h hok)
      (paired_initial secretKey ownTag version) hes
  exact (hpaired false).2.agree k k' hk hk'

end HsLink

end Agreement

/-! ## Two small sockets -/

/-- A suite whose keys can be read off: secrets add up, and the code is its own input. -/
def clearSuite : HandshakeSuite (Key × Transcript) where
  publicOf sk := 1 :: sk
  sharedSecret sk pk := sk.zipWith (· + ·) pk.tail
  deriveSessionKey static ephemeral t :=
    static ++ ephemeral ++ t.initiatorEph ++ t.responderEph
  computeMac k t := (k, t)
  zeroMac := ([], ⟨[], [], [], [], [], [], 0, 0, 0, 0, []⟩)
  deriveId pk := ⟨pk⟩
  ephemeral side i := List.replicate (i + 1) (if side then 5 else 7)
  shared_comm a b := by
    simp only [List.tail_cons]
    exact List.zipWith_comm_of_comm UInt8.add_comm
  mac_inj _ _ _ _ h := congrArg Prod.snd h
  ephemeral_inj side i j h := by simpa using congrArg List.length h
  ephemeral_ne side i h := by
    simp [zeroKey, List.replicate_succ] at h

def clearLink : HsLink (Key × Transcript) :=
  HsLink.initial clearSuite (fun side => [if side then 2 else 1]) (fun _ => []) (fun _ => 1)

def plainChoices : HsChoices := ⟨true, true, [], true, true, false⟩

/-- One side connects and the four messages arrive in turn. -/
def plainExchange : List HsEvent :=
  .connect false true :: List.replicate 4 (.deliver 0 plainChoices)

theorem HsLink.established_agree_plain :
    ((run (HsLink.step clearSuite) clearLink plainExchange).node false).session? =
      ((run (HsLink.step clearSuite) clearLink plainExchange).node true).session? ∧
    ((run (HsLink.step clearSuite) clearLink plainExchange).node true).session? ≠ none := by
  have hes : Along (HsLink.step clearSuite) (HsLink.Undisturbed clearSuite) clearLink
      plainExchange := by decide +kernel
  have hsome : ∀ side, ((run (HsLink.step clearSuite) clearLink plainExchange).node
      side).session?.isSome := by decide +kernel
  obtain ⟨k, hk⟩ := Option.isSome_iff_exists.mp (hsome false)
  obtain ⟨k', hk'⟩ := Option.isSome_iff_exists.mp (hsome true)
  have heq : k = k' :=
    HsLink.established_agree clearSuite _ _ _ plainExchange hes k k' hk hk'
  rw [hk, hk', heq]
  exact ⟨rfl, Option.some_ne_none k'⟩

/-- Both sides connect and nothing is lost, but the losing `HS_RES` and the `HS_FINISH` of
the winning exchange change places. -/
def crossedExchange : List HsEvent :=
  [.connect false true, .connect true true] ++ List.replicate 5 (.deliver 0 plainChoices) ++
    [.deliver 1 plainChoices, .deliver 0 plainChoices, .deliver 0 plainChoices]

theorem HsLink.crossed_sessions_differ :
    (clearLink.node false).publicKey ≠ (clearLink.node true).publicKey ∧
    (run (HsLink.step clearSuite) clearLink crossedExchange).net = [] ∧
    ((run (HsLink.step clearSuite) clearLink crossedExchange).node false).session?.isSome ∧
    ((run (HsLink.step clearSuite) clearLink crossedExchange).node true).session?.isSome ∧
    ((run (HsLink.step clearSuite) clearLink crossedExchange).node false).session? ≠
      ((run (HsLink.step clearSuite) clearLink crossedExchange).node true).session? := by
  decide +kernel

end BcpFlux.Socket
