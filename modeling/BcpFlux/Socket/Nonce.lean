import BcpFlux.Library.Runs
import BcpFlux.Socket.Session
import Mathlib.Data.List.Nodup
import Mathlib.Data.List.Perm.Basic

/-! # No nonce is used twice

Two sockets share one session key and each counts its own sends.  A set of send
materials is gathered under the peer's lock and sealed after the lock is gone, so
seals happen in any order and possibly after a re-key.  The nonces stay
apart because every counter is handed out once per key, and the ends seal on different
lanes.
-/

namespace BcpFlux.Socket
open Library Crypto

/-- The places that gather one set of materials for one packet. -/
inductive SendOrigin where
  /-- `PreProcessOut`: plain sends, flow sends, batch flushes and released pending packets. -/
  | packet
  /-- `DrainWaitingSends`. -/
  | waitingDrain
  | flowReject
  | flowAck
  | grant
  | grantAck
  | pathChallenge
  | pathResponse
  | transferReject
  | transferAck
deriving DecidableEq, Repr

structure Endpoint where
  publicKey : Key
  /-- The other socket's key, which its handshakes bind. -/
  otherPk : Key
  peer : SessionPeer
  /-- Gathered, and not sealed yet. -/
  pending : List PeerSendMaterials
  /-- The calls of `SealSecurePacket` so far. -/
  sealed : List PeerSendMaterials
  /-- The keys this side's `CommitSession` calls derived. -/
  committed : List Key

inductive EndEvent where
  | gather (origin : SendOrigin)
  | resend (resendN : ℕ)
  | transfer (queuedCount : ℕ)
  /-- The pending set at `index` reaches the seal its packet's controller asks for. -/
  | sealPending (index : ℕ) (macOnly : Bool)
  /-- The pending set at `index` is wiped unused: no slot, or the entry was resolved. -/
  | dropPending (index : ℕ)
  | commit (session : Key)
  /-- The peer is removed; a later contact registers it anew. -/
  | forget

namespace Endpoint

def take (x : Endpoint) (r : SessionPeer × List PeerSendMaterials) : Endpoint :=
  { x with peer := r.1, pending := x.pending ++ r.2 }

/-- Every gather checks that the session is up, under the same lock. -/
def step (suite : CipherSuite) (x : Endpoint) : EndEvent → Endpoint
  | .gather _ =>
    if x.peer.established then
      let r := gatherSendMaterials x.publicKey x.peer
      x.take (r.1, [r.2])
    else x
  | .resend resendN =>
    if x.peer.established then x.take (resendMaterials x.publicKey x.peer resendN) else x
  | .transfer queuedCount =>
    if x.peer.established then x.take (transferMaterials x.publicKey x.peer queuedCount) else x
  | .sealPending index macOnly =>
    match x.pending[index]? with
    | none => x
    | some m => { x with
        pending := x.pending.eraseIdx index
        sealed := if macOnly then x.sealed else x.sealed ++ [m] }
  | .dropPending index => { x with pending := x.pending.eraseIdx index }
  | .commit session => { x with
      peer := commitSession suite x.publicKey x.otherPk session
      committed := x.committed ++ [session] }
  | .forget => { x with peer := .blank }

def counters : EndEvent → ℕ
  | .gather _ => 1
  | .resend resendN => resendN
  | .transfer queuedCount => max 1 queuedCount
  | _ => 0

/-- The assumptions on one event: a committed key is new on this side, and the session's
counter does not wrap. -/
def Allowed (x : Endpoint) : EndEvent → Prop
  | .commit session => session ∉ x.committed
  | e => x.peer.established = true → x.peer.sendCounter + counters e < 2 ^ 64

instance (x : Endpoint) : DecidablePred x.Allowed
  | .commit session => inferInstanceAs (Decidable (session ∉ x.committed))
  | .gather _ | .resend _ | .transfer _ | .sealPending _ _ | .dropPending _ | .forget =>
    inferInstanceAs (Decidable (_ → _))

/-! ## What a gather hands out -/

/-- `k` counters taken, and the sets returned use consecutive ones from the first. -/
structure HandsOut (publicKey : Key) (peer peer' : SessionPeer) (ms : List PeerSendMaterials)
    (k : ℕ) : Prop where
  length_le : ms.length ≤ k
  counters : ms.map PeerSendMaterials.counter = List.range' (peer.sendCounter + 1) ms.length
  materials : ∀ m ∈ ms, m.key = peer.session ∧ m.lane = laneTo publicKey peer.theirPk
  counter_eq : peer'.sendCounter = peer.sendCounter + k
  established_eq : peer'.established = peer.established
  session_eq : peer'.session = peer.session
  theirPk_eq : peer'.theirPk = peer.theirPk

theorem gatherSendMaterials_handsOut (publicKey : Key) (peer : SessionPeer)
    (h : peer.sendCounter + 1 < 2 ^ 64) :
    HandsOut publicKey peer (gatherSendMaterials publicKey peer).1
      [(gatherSendMaterials publicKey peer).2] 1 where
  length_le := Nat.le_refl 1
  counters := by
    rw [List.length_singleton, List.range'_one, List.map_singleton]
    exact congrArg (fun n => [n]) (Nat.mod_eq_of_lt h)
  materials := by
    intro m hm
    rw [List.mem_singleton.mp hm]
    exact ⟨rfl, rfl⟩
  counter_eq := Nat.mod_eq_of_lt h
  established_eq := rfl
  session_eq := rfl
  theirPk_eq := rfl

theorem copyMaterials_used (base : PeerSendMaterials) (count : ℕ) (peer : SessionPeer)
    (h : peer.sendCounter + count < 2 ^ 64) :
    let r := copyMaterials base true count peer
    r.2.map PeerSendMaterials.counter = List.range' (peer.sendCounter + 1) count ∧
      (∀ m ∈ r.2, m.key = base.key ∧ m.lane = base.lane) ∧
      r.1.sendCounter = peer.sendCounter + count ∧ r.1.session = peer.session ∧
      r.1.theirPk = peer.theirPk ∧ r.1.established = peer.established := by
  induction count generalizing peer with
  | zero => exact ⟨rfl, by simp [copyMaterials], rfl, rfl, rfl, rfl⟩
  | succ count ih =>
    have hbump : peer.bump.sendCounter = peer.sendCounter + 1 := Nat.mod_eq_of_lt (by omega)
    obtain ⟨h1, h2, h3, h4, h5, h6⟩ := ih peer.bump (by omega)
    simp only [copyMaterials, if_true]
    refine ⟨?_, ?_, ?_, h4, h5, h6⟩
    · rw [List.map_cons, h1, hbump, List.range'_succ]
    · intro m hm
      rcases List.mem_cons.mp hm with rfl | hm
      · exact ⟨rfl, rfl⟩
      · exact h2 m hm
    · rw [h3, hbump]
      omega

theorem copyMaterials_handsOut (publicKey : Key) (peer : SessionPeer) (count : ℕ)
    (h : peer.sendCounter + max 1 count < 2 ^ 64) :
    let base := gatherSendMaterials publicKey peer
    HandsOut publicKey peer (copyMaterials base.2 false count base.1).1
      (copyMaterials base.2 false count base.1).2 (max 1 count) := by
  intro base
  have hone := gatherSendMaterials_handsOut publicKey peer (by omega)
  cases count with
  | zero =>
    exact ⟨Nat.zero_le _, rfl, by simp [copyMaterials], hone.counter_eq, rfl, rfl, rfl⟩
  | succ count =>
    have hbase : base.1.sendCounter = peer.sendCounter + 1 := hone.counter_eq
    obtain ⟨h1, h2, h3, h4, h5, h6⟩ := copyMaterials_used base.2 count base.1 (by omega)
    have hlen := congrArg List.length h1
    rw [List.length_map, List.length_range'] at hlen
    constructor
    · simp only [copyMaterials, Bool.false_eq_true, if_false, List.length_cons, hlen]
      omega
    · simp only [copyMaterials, Bool.false_eq_true, if_false, List.map_cons, List.length_cons, h1,
        hlen, hbase, List.range'_succ]
      exact congrArg (· :: _) hbase
    · intro m hm
      rcases List.mem_cons.mp hm with rfl | hm
      · exact ⟨rfl, rfl⟩
      · exact h2 m hm
    · simp only [copyMaterials, Bool.false_eq_true, if_false, h3, hbase]
      omega
    · exact h6
    · exact h4
    · exact h5

theorem resendMaterials_handsOut (publicKey : Key) (peer : SessionPeer) (resendN : ℕ)
    (h : peer.sendCounter + resendN < 2 ^ 64) :
    HandsOut publicKey peer (resendMaterials publicKey peer resendN).1
      (resendMaterials publicKey peer resendN).2 resendN := by
  rw [resendMaterials]
  split
  · subst resendN
    exact ⟨Nat.le_refl 0, rfl, by simp, rfl, rfl, rfl, rfl⟩
  · have hmax : max 1 resendN = resendN := by omega
    have hcopy := copyMaterials_handsOut publicKey peer resendN (by omega)
    rw [hmax] at hcopy
    exact hcopy

/-! ## The invariant of one end -/

def issued (x : Endpoint) : List PeerSendMaterials := x.pending ++ x.sealed

/-- What a seal is keyed by before the nonce is expanded. -/
def keyed (m : PeerSendMaterials) : Key × ℕ := (m.key, m.counter)

structure Inv (x : Endpoint) : Prop where
  nodup : (x.issued.map keyed).Nodup
  lane : ∀ m ∈ x.issued, m.lane = laneTo x.publicKey x.otherPk
  bound : ∀ m ∈ x.issued, m.counter < 2 ^ 64
  known : ∀ m ∈ x.issued, m.key ∈ x.committed
  bound_pk : x.peer.established = true → x.peer.theirPk = x.otherPk
  session_known : x.peer.established = true → x.peer.session ∈ x.committed
  /-- The counter of the session in force covers all its seals. -/
  current : x.peer.established = true →
    ∀ m ∈ x.issued, m.key = x.peer.session → m.counter ≤ x.peer.sendCounter

variable {x : Endpoint}

theorem Inv.shrink {x' : Endpoint} (h : x.Inv) (hsub : x'.issued.Subperm x.issued)
    (hpk : x'.publicKey = x.publicKey) (hother : x'.otherPk = x.otherPk)
    (hpeer : x'.peer = x.peer) (hcommit : x'.committed = x.committed) : x'.Inv where
  nodup := by
    obtain ⟨l, hperm, hl⟩ := hsub
    exact (hperm.map keyed).nodup_iff.mp (h.nodup.sublist (hl.map keyed))
  lane := fun m hm => by rw [hpk, hother]; exact h.lane m (hsub.subset hm)
  bound := fun m hm => h.bound m (hsub.subset hm)
  known := fun m hm => by rw [hcommit]; exact h.known m (hsub.subset hm)
  bound_pk := by rw [hpeer, hother]; exact h.bound_pk
  session_known := by rw [hpeer, hcommit]; exact h.session_known
  current := fun hest m hm hkey => by
    rw [hpeer] at hest hkey ⊢
    exact h.current hest m (hsub.subset hm) hkey

theorem Inv.handOut (h : x.Inv) (hest : x.peer.established = true)
    {r : SessionPeer × List PeerSendMaterials} {k : ℕ}
    (hout : HandsOut x.publicKey x.peer r.1 r.2 k) (hk : x.peer.sendCounter + k < 2 ^ 64) :
    (x.take r).Inv := by
  have hcounter : ∀ m ∈ r.2, x.peer.sendCounter < m.counter ∧
      m.counter ≤ x.peer.sendCounter + k := by
    intro m hm
    have hmem : m.counter ∈ r.2.map PeerSendMaterials.counter := List.mem_map_of_mem hm
    have hlen := hout.length_le
    rw [hout.counters, List.mem_range'_1] at hmem
    omega
  have hissued : (x.take r).issued.Perm (r.2 ++ x.issued) := by
    simp only [issued, take]
    rw [List.append_assoc]
    exact List.perm_append_comm_assoc _ _ _
  have hmem : ∀ m ∈ (x.take r).issued, m ∈ r.2 ∨ m ∈ x.issued := by
    intro m hm
    exact List.mem_append.mp (hissued.mem_iff.mp hm)
  constructor
  · rw [(hissued.map keyed).nodup_iff, List.map_append]
    refine List.Nodup.append ?_ h.nodup ?_
    · -- the counters alone already differ
      refine List.Nodup.of_map Prod.snd ?_
      rw [List.map_map]
      change (r.2.map PeerSendMaterials.counter).Nodup
      rw [hout.counters]
      exact List.nodup_range'
    · intro p hp hp'
      obtain ⟨m, hm, rfl⟩ := List.mem_map.mp hp
      obtain ⟨m', hm', heq⟩ := List.mem_map.mp hp'
      have hkey : m'.key = x.peer.session :=
        (Prod.mk.inj heq).1.trans (hout.materials m hm).1
      have hle := h.current hest m' hm' hkey
      have hlt := (hcounter m hm).1
      have := (Prod.mk.inj heq).2
      omega
  · intro m hm
    rcases hmem m hm with hm | hm
    · rw [(hout.materials m hm).2, h.bound_pk hest]
      rfl
    · exact h.lane m hm
  · intro m hm
    rcases hmem m hm with hm | hm
    · have := (hcounter m hm).2
      omega
    · exact h.bound m hm
  · intro m hm
    rcases hmem m hm with hm | hm
    · rw [(hout.materials m hm).1]
      exact h.session_known hest
    · exact h.known m hm
  · intro _
    exact hout.theirPk_eq.trans (h.bound_pk hest)
  · intro _
    simp only [take, hout.session_eq]
    exact h.session_known hest
  · intro _ m hm hkey
    simp only [take, hout.counter_eq, hout.session_eq] at hkey ⊢
    rcases hmem m hm with hm | hm
    · exact (hcounter m hm).2
    · have := h.current hest m hm hkey
      omega

theorem Inv.commit (suite : CipherSuite) (h : x.Inv) {session : Key}
    (hnew : session ∉ x.committed) : (x.step suite (.commit session)).Inv where
  __ := h
  known := fun m hm => List.mem_append_left _ (h.known m hm)
  bound_pk := fun _ => rfl
  session_known := fun _ => List.mem_append_right _ (List.mem_singleton_self session)
  current := by
    -- the new key has sealed nothing yet
    intro _ m hm hkey
    have hknown := h.known m hm
    rw [hkey] at hknown
    exact absurd hknown hnew

theorem Inv.forget (h : x.Inv) : Inv { x with peer := .blank } where
  __ := h
  bound_pk := fun hest => by cases hest
  session_known := fun hest => by cases hest
  current := fun hest => by cases hest

theorem Inv.sealPending (h : x.Inv) {index : ℕ} {m : PeerSendMaterials}
    (hm : x.pending[index]? = some m) (macOnly : Bool) :
    Inv { x with
      pending := x.pending.eraseIdx index
      sealed := if macOnly then x.sealed else x.sealed ++ [m] } := by
  refine h.shrink ?_ rfl rfl rfl rfl
  obtain ⟨hlt, hget⟩ := List.getElem?_eq_some_iff.mp hm
  have herase : (m :: x.pending.eraseIdx index).Perm x.pending := by
    rw [← hget]
    exact List.getElem_cons_eraseIdx_perm hlt
  cases macOnly with
  | true => exact ((List.eraseIdx_sublist x.pending index).append_right x.sealed).subperm
  | false =>
    refine List.Perm.subperm ?_
    calc x.pending.eraseIdx index ++ (x.sealed ++ [m])
      _ = (x.pending.eraseIdx index ++ x.sealed) ++ [m] := (List.append_assoc _ _ _).symm
      _ |>.Perm (m :: (x.pending.eraseIdx index ++ x.sealed)) := List.perm_append_singleton _ _
      _ |>.Perm (x.pending ++ x.sealed) := herase.append_right x.sealed

theorem Inv.step (suite : CipherSuite) (h : x.Inv) (e : EndEvent)
    (hok : x.Allowed e) : (x.step suite e).Inv := by
  cases e with
  | gather origin =>
    simp only [Endpoint.step]
    split
    case isFalse => exact h
    case isTrue hest =>
      have hk := hok hest
      exact h.handOut hest (r := (_, [_])) (gatherSendMaterials_handsOut x.publicKey x.peer hk) hk
  | resend resendN =>
    simp only [Endpoint.step]
    split
    case isFalse => exact h
    case isTrue hest =>
      have hk := hok hest
      exact h.handOut hest (resendMaterials_handsOut x.publicKey x.peer resendN hk) hk
  | transfer queuedCount =>
    simp only [Endpoint.step]
    split
    case isFalse => exact h
    case isTrue hest =>
      have hk := hok hest
      exact h.handOut hest (copyMaterials_handsOut x.publicKey x.peer queuedCount hk) hk
  | sealPending index macOnly =>
    simp only [Endpoint.step]
    split
    · exact h
    case h_2 m hm => exact h.sealPending hm macOnly
  | dropPending index =>
    exact h.shrink ((List.eraseIdx_sublist x.pending index).append_right x.sealed).subperm
      rfl rfl rfl rfl
  | commit session => exact h.commit suite hok
  | forget => exact h.forget

def fresh (publicKey otherPk : Key) : Endpoint := ⟨publicKey, otherPk, .blank, [], [], []⟩

theorem inv_fresh (publicKey otherPk : Key) : (fresh publicKey otherPk).Inv where
  nodup := List.nodup_nil
  lane := by simp [fresh, issued]
  bound := by simp [fresh, issued]
  known := by simp [fresh, issued]
  bound_pk := fun hest => by cases hest
  session_known := fun hest => by cases hest
  current := fun hest => by cases hest

theorem step_publicKey (suite : CipherSuite) (x : Endpoint) (e : EndEvent) :
    (x.step suite e).publicKey = x.publicKey := by
  cases e <;> simp only [Endpoint.step] <;> split <;> rfl

theorem step_otherPk (suite : CipherSuite) (x : Endpoint) (e : EndEvent) :
    (x.step suite e).otherPk = x.otherPk := by
  cases e <;> simp only [Endpoint.step] <;> split <;> rfl

/-- The key and the nonce a call of `SealSecurePacket` encrypts under. -/
def sealInput (m : PeerSendMaterials) : Key × Nonce := (m.key, expandNonce m.counter m.lane)

theorem Inv.sealed_nodup (h : x.Inv) : (x.sealed.map sealInput).Nodup := by
  have hmem : ∀ m ∈ x.sealed, m ∈ x.issued := fun m hm => List.mem_append_right _ hm
  have hkeyed : (x.sealed.map keyed).Nodup := by
    have := h.nodup
    rw [issued, List.map_append] at this
    exact this.of_append_right
  refine (List.Nodup.of_map keyed hkeyed).map_on ?_
  intro m hm m' hm' heq
  obtain ⟨hkey, hnonce⟩ := Prod.mk.inj heq
  have hcounter := (expandNonce_inj (h.bound m (hmem m hm)) (h.bound m' (hmem m' hm')) hnonce).1
  exact List.inj_on_of_nodup_map hkeyed hm hm' (Prod.ext hkey hcounter)

end Endpoint

/-! ## The pair -/

structure Pair where
  left : Endpoint
  right : Endpoint

inductive Side where
  | left
  | right
deriving DecidableEq, Repr

namespace Pair

def step (suite : CipherSuite) (p : Pair) (e : Side × EndEvent) : Pair :=
  match e.1 with
  | .left => { p with left := p.left.step suite e.2 }
  | .right => { p with right := p.right.step suite e.2 }

def Allowed (p : Pair) (e : Side × EndEvent) : Prop :=
  match e.1 with
  | .left => p.left.Allowed e.2
  | .right => p.right.Allowed e.2

instance (p : Pair) : DecidablePred p.Allowed
  | (.left, e) => inferInstanceAs (Decidable (p.left.Allowed e))
  | (.right, e) => inferInstanceAs (Decidable (p.right.Allowed e))

def fresh (pk pk' : Key) : Pair := ⟨.fresh pk pk', .fresh pk' pk⟩

/-- Both ends, each bound to the other's public key. -/
structure Inv (pk pk' : Key) (p : Pair) : Prop where
  left : p.left.Inv
  right : p.right.Inv
  left_pk : p.left.publicKey = pk ∧ p.left.otherPk = pk'
  right_pk : p.right.publicKey = pk' ∧ p.right.otherPk = pk

theorem Inv.step {pk pk' : Key} (suite : CipherSuite) {p : Pair} (h : Inv pk pk' p)
    (e : Side × EndEvent) (hok : p.Allowed e) : Inv pk pk' (p.step suite e) := by
  obtain ⟨side, e⟩ := e
  cases side with
  | left =>
    exact ⟨h.left.step suite e hok, h.right,
      ⟨(p.left.step_publicKey suite e).trans h.left_pk.1,
        (p.left.step_otherPk suite e).trans h.left_pk.2⟩, h.right_pk⟩
  | right =>
    exact ⟨h.left, h.right.step suite e hok, h.left_pk,
      ⟨(p.right.step_publicKey suite e).trans h.right_pk.1,
        (p.right.step_otherPk suite e).trans h.right_pk.2⟩⟩

/-- Over every run of two sockets with different public keys in which each side commits
only new keys and never wraps its counter, no two calls of `SealSecurePacket`, on either
end, share a session key and an expanded nonce. -/
theorem nonce_unique (suite : CipherSuite) (pk pk' : Key) (hlen : pk.length = pk'.length)
    (hne : pk ≠ pk') (events : List (Side × EndEvent))
    (hok : Along (step suite) Allowed (fresh pk pk') events) :
    let p := run (step suite) (fresh pk pk') events
    ((p.left.sealed ++ p.right.sealed).map Endpoint.sealInput).Nodup := by
  intro p
  have hinv : Inv pk pk' p := run_invariant (step suite) (Inv pk pk') Allowed
    (fun p e hok h => h.step suite e hok)
    ⟨Endpoint.inv_fresh pk pk', Endpoint.inv_fresh pk' pk, ⟨rfl, rfl⟩, ⟨rfl, rfl⟩⟩ hok
  rw [List.map_append]
  refine List.Nodup.append hinv.left.sealed_nodup hinv.right.sealed_nodup ?_
  -- the same pair on both ends would need the same lane
  intro input hl hr
  obtain ⟨m, hm, rfl⟩ := List.mem_map.mp hl
  obtain ⟨m', hm', heq⟩ := List.mem_map.mp hr
  have hlane := hinv.left.lane m (List.mem_append_right _ hm)
  have hlane' := hinv.right.lane m' (List.mem_append_right _ hm')
  rw [hinv.left_pk.1, hinv.left_pk.2] at hlane
  rw [hinv.right_pk.1, hinv.right_pk.2] at hlane'
  refine expandNonce_lane_ne ?_ _ _ (Prod.mk.inj heq).2
  rw [hlane, hlane']
  exact (laneTo_ne hlen hne).symm

/-- Both ends commit one key; the left sends, resends two packets and runs a transfer pass,
the right answers, and the seals happen out of order. -/
theorem nonce_unique_two_senders :
    let events : List (Side × EndEvent) := [(.left, .commit [7]), (.right, .commit [7]),
      (.left, .gather .packet), (.left, .resend 2), (.right, .gather .flowAck),
      (.left, .transfer 2), (.left, .sealPending 3 false), (.left, .sealPending 0 false),
      (.left, .dropPending 0), (.right, .sealPending 0 false), (.left, .sealPending 1 false)]
    let p := run (step .transparent) (fresh [1] [2]) events
    p.left.sealed.length = 3 ∧ p.right.sealed.length = 1 ∧
      ((p.left.sealed ++ p.right.sealed).map Endpoint.sealInput).Nodup := by
  intro events p
  refine ⟨by decide, by decide, ?_⟩
  exact nonce_unique .transparent [1] [2] rfl (by decide) events (by decide)

end Pair

end BcpFlux.Socket
