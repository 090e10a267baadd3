import BcpFlux.Basic
import BcpFlux.Library.Codec
import BcpFlux.Library.Runs
import Mathlib.Algebra.Group.Int.Defs

/-! # Announcing the receive grant

One side of a session limits how many receive slots the other may occupy, and says so
in a `GRANT` packet that is repeated until the matching `GRANT_ACK` comes back.  The
remote orders announcements by the signed difference of their generations, and an
acknowledgement counts only for the generation outstanding.

A session can be replaced as long as nothing has been opened under it, and a record can be
dropped and registered anew.  The network delivers anything ever sealed under a session, in
any order and any number of times, to a side that holds it.
-/

namespace BcpFlux.Socket
open Library

def handshakeRetryDefault : ℕ := 200000
def grantStrikesBeforeCut : ℕ := 4
def grantStrikeWindowMicros : ℕ := 30000000
def grantCutDivisor : ℕ := 2
def grantCutFloor : ℕ := 2
def wireGrantPayloadSize : ℕ := 8
def wireGrantAckPayloadSize : ℕ := 4

/-- `static_cast<int32_t>(a - b)` of two 32-bit words. -/
def signedDifference (a b : ℕ) : ℤ :=
  if u32 (a + 2 ^ 32 - b) < 2 ^ 31 then (u32 (a + 2 ^ 32 - b) : ℤ)
  else (u32 (a + 2 ^ 32 - b) : ℤ) - 2 ^ 32

theorem signedDifference_pos_iff {s t : ℕ} (hs : s < t + 2 ^ 31) (ht : t < s + 2 ^ 31) :
    0 < signedDifference (u32 s) (u32 t) ↔ t < s := by
  unfold signedDifference u32
  split <;> omega

theorem u32_inj_of_lt {s t : ℕ} (hs : s < 2 ^ 31) (ht : t < 2 ^ 31) (h : u32 s = u32 t) :
    s = t := by
  unfold u32 at h
  omega

/-! ## The payloads -/

def grantPayload (grant generation : ℕ) : List UInt8 :=
  leBytes 4 grant ++ leBytes 4 generation

def grantAckPayload (generation : ℕ) : List UInt8 := leBytes 4 generation

theorem grantPayload_grant {grant generation : ℕ} (h : grant < 2 ^ 32) :
    ofLeBytes ((grantPayload grant generation).take 4) = grant := by
  rw [grantPayload, take_leBytes]
  exact ofLeBytes_leBytes_of_lt h

theorem grantPayload_generation (grant serial : ℕ) :
    ofLeBytes (((grantPayload grant (u32 serial)).drop 4).take 4) = u32 serial := by
  rw [grantPayload, drop_leBytes, List.take_of_length_le (Nat.le_of_eq (leBytes_length 4 _))]
  exact ofLeBytes_leBytes_of_lt (Nat.mod_lt _ (by decide))

theorem grantAckPayload_generation (serial : ℕ) :
    ofLeBytes ((grantAckPayload (u32 serial)).take 4) = u32 serial := by
  rw [grantAckPayload, List.take_of_length_le (Nat.le_of_eq (leBytes_length 4 _))]
  exact ofLeBytes_leBytes_of_lt (Nat.mod_lt _ (by decide))

/-! ## The granting side -/

structure Granter where
  /-- The session key held; none while the handshake runs. -/
  session : Option ℕ
  confirmed : Bool
  grant : ℕ
  ourGrantGeneration : ℕ
  grantSendPending : Bool
  grantSentAtMicros : ℕ
  stallReclaims : ℕ
  lastStallMicros : ℕ
  /-- Generations raised since the record was registered. -/
  changes : ℕ
deriving DecidableEq, Repr

namespace Granter

/-- `RegisterPeer` and `SeedPeerRecvState`. -/
def register (recvGrant : ℕ) : Granter where
  session := none
  confirmed := false
  grant := u32 recvGrant
  ourGrantGeneration := 0
  grantSendPending := false
  grantSentAtMicros := 0
  stallReclaims := 0
  lastStallMicros := 0
  changes := 0

def raise (p : Granter) : Granter :=
  { p with
    ourGrantGeneration := u32 (p.ourGrantGeneration + 1)
    grantSendPending := true
    grantSentAtMicros := 0
    changes := p.changes + 1 }

def applyGrant (p : Granter) (value : ℕ) : Granter := raise { p with grant := value }

/-- The grant's part in `CommitSession`. -/
def commitSession (recvGrant : ℕ) (p : Granter) (key : ℕ) : Granter :=
  if u32 recvGrant ≠ 0 then raise { p with session := some key } else { p with session := some key }

def setRecvGrant (p : Granter) (slots : ℕ) : Granter := p.applyGrant (u32 slots)

/-- One stalled association reclaimed by the flow table. -/
def strike (p : Granter) (now : ℕ) : Granter :=
  { p with stallReclaims := u32 (p.stallReclaims + 1), lastStallMicros := now }

/-- The value a cut would put in force. -/
def cutValue (current : ℕ) : ℕ :=
  if current / grantCutDivisor < grantCutFloor then grantCutFloor else current / grantCutDivisor

def cutGrantIfAbusive (p : Granter) (now : ℕ) : Granter :=
  if p.lastStallMicros ≠ 0 ∧ p.lastStallMicros < now
      ∧ grantStrikeWindowMicros < now - p.lastStallMicros then
    { p with stallReclaims := 0, lastStallMicros := 0 }
  else if p.stallReclaims < grantStrikesBeforeCut then p
  else if p.grant = 0 then { p with stallReclaims := 0 }
  else if p.grant ≤ cutValue p.grant then { p with stallReclaims := 0 }
  else { p with stallReclaims := 0 }.applyGrant (cutValue p.grant)

/-- Whether `SendPendingGrant` puts an announcement on the wire. -/
def announces (p : Granter) (now : ℕ) : Bool :=
  p.grantSendPending
    && !(p.grantSentAtMicros != 0
      && decide ((now + 2 ^ 64 - p.grantSentAtMicros) % 2 ^ 64 < handshakeRetryDefault))

def acked (p : Granter) (payload : List UInt8) : Granter :=
  if payload.length < wireGrantAckPayloadSize then p
  else if p.grantSendPending ∧ ofLeBytes (payload.take 4) = p.ourGrantGeneration then
    { p with grantSendPending := false }
  else p

end Granter

/-! ## The remote -/

structure Grantee where
  session : Option ℕ
  confirmed : Bool
  theirGrant : ℕ
  theirGrantGeneration : ℕ
deriving DecidableEq, Repr

namespace Grantee

def register : Grantee where
  session := none
  confirmed := false
  theirGrant := 0
  theirGrantGeneration := 0

/-- `Grant_Update`: the record afterwards, and the acknowledgement sent. -/
def update (p : Grantee) (payload : List UInt8) : Grantee × Option (List UInt8) :=
  if payload.length < wireGrantPayloadSize then (p, none)
  else
    let grant := ofLeBytes (payload.take 4)
    let generation := ofLeBytes ((payload.drop 4).take 4)
    (if 0 < signedDifference generation p.theirGrantGeneration then
        { p with theirGrantGeneration := generation, theirGrant := grant }
      else p,
      some (grantAckPayload generation))

end Grantee

/-! ## The system -/

/-- An announcement on the wire, with the change it announces. -/
structure Announcement where
  session : ℕ
  payload : List UInt8
  serial : ℕ
  grant : ℕ
deriving DecidableEq, Repr

structure GrantAck where
  session : ℕ
  payload : List UInt8
  serial : ℕ
deriving DecidableEq, Repr

/-- The two records, the sessions each side ever held, and the network. -/
structure Granting where
  ours : Granter
  theirs : Grantee
  ourKeys : List ℕ
  theirKeys : List ℕ
  announcements : List Announcement
  acks : List GrantAck
  /-- Announcements the remote's present record opened. -/
  heard : List Announcement
deriving DecidableEq, Repr

inductive GrantEvent where
  /-- The granting side drops its record and registers the peer anew. -/
  | registerOurs
  /-- The granting side's handshake commits the session `key`. -/
  | commitOurs (key : ℕ)
  /-- The granting side opens some other packet of the session. -/
  | openOurs
  | setRecvGrant (slots : ℕ)
  | strike (now : ℕ)
  /-- The tick: the cut is judged at `cutAt`, then the announcement at `now`. -/
  | tick (cutAt now : ℕ)
  /-- The network delivers the `i`-th acknowledgement ever sent. -/
  | deliverAck (i : ℕ)
  | registerTheirs
  | commitTheirs (key : ℕ)
  | openTheirs
  /-- The network delivers the `i`-th announcement ever sent. -/
  | deliverAnnouncement (i : ℕ)
deriving DecidableEq, Repr

namespace Granting

def start (recvGrant : ℕ) : Granting where
  ours := .register recvGrant
  theirs := .register
  ourKeys := []
  theirKeys := []
  announcements := []
  acks := []
  heard := []

/-- `SendPendingGrant`. -/
def sendPendingGrant (w : Granting) (now : ℕ) : Granting :=
  match w.ours.session with
  | none => w
  | some key =>
    if w.ours.announces now then
      { w with
        ours := { w.ours with grantSentAtMicros := now }
        announcements := w.announcements ++
          [⟨key, grantPayload w.ours.grant w.ours.ourGrantGeneration, w.ours.changes,
            w.ours.grant⟩] }
    else w

/-- An acknowledgement arrives; only a packet of the session held opens. -/
def takeAck (w : Granting) (a : GrantAck) : Granting :=
  if w.ours.session = some a.session then
    { w with ours := { w.ours with confirmed := true }.acked a.payload }
  else w

/-- An announcement arrives, and its acknowledgement goes out. -/
def takeAnnouncement (w : Granting) (m : Announcement) : Granting :=
  if w.theirs.session = some m.session then
    let r := { w.theirs with confirmed := true }.update m.payload
    { w with
      theirs := r.1
      acks := w.acks ++ r.2.toList.map fun payload => ⟨m.session, payload, m.serial⟩
      heard := w.heard ++ [m] }
  else w

/-- One step.  A session is committed at most once by a side: the secret that made it is
wiped.  A record that has opened a packet under its session refuses another one. -/
def step (recvGrant : ℕ) (w : Granting) : GrantEvent → Granting
  | .registerOurs => { w with ours := .register recvGrant }
  | .commitOurs key =>
    if w.ours.confirmed = false ∧ key ∉ w.ourKeys then
      { w with ours := w.ours.commitSession recvGrant key, ourKeys := key :: w.ourKeys }
    else w
  | .openOurs =>
    if w.ours.session.isSome then { w with ours := { w.ours with confirmed := true } } else w
  | .setRecvGrant slots => { w with ours := w.ours.setRecvGrant slots }
  | .strike now => { w with ours := w.ours.strike now }
  | .tick cutAt now =>
    sendPendingGrant { w with ours := w.ours.cutGrantIfAbusive cutAt } now
  | .deliverAck i =>
    match w.acks[i]? with
    | some a => w.takeAck a
    | none => w
  | .registerTheirs => { w with theirs := .register, heard := [] }
  | .commitTheirs key =>
    if w.theirs.confirmed = false ∧ key ∉ w.theirKeys then
      { w with
        theirs := { w.theirs with session := some key }
        theirKeys := key :: w.theirKeys }
    else w
  | .openTheirs =>
    if w.theirs.session.isSome then { w with theirs := { w.theirs with confirmed := true } }
    else w
  | .deliverAnnouncement i =>
    match w.announcements[i]? with
    | some m => w.takeAnnouncement m
    | none => w

/-! ## The invariant -/

/-- Generations are the counted changes, announcements carry the value of their change,
and an acknowledgement stands for an announcement the remote opened. -/
structure Inv (w : Granting) : Prop where
  generation : w.ours.ourGrantGeneration = u32 w.ours.changes
  few : w.ours.changes < 2 ^ 31
  word : w.ours.grant < 2 ^ 32
  raised : w.ours.grantSendPending = true → 0 < w.ours.changes
  /-- Nothing is outstanding only because the last change was acknowledged in the session
  held, and that session is there to stay. -/
  settled : w.ours.grantSendPending = false → 0 < w.ours.changes →
    w.ours.confirmed = true ∧
      ∃ a ∈ w.acks, w.ours.session = some a.session ∧ a.serial = w.ours.changes
  ourKey : ∀ key, w.ours.session = some key → key ∈ w.ourKeys
  theirKey : ∀ key, w.theirs.session = some key → key ∈ w.theirKeys
  sent : ∀ m ∈ w.announcements, m.session ∈ w.ourKeys ∧ 0 < m.serial ∧ m.serial < 2 ^ 31 ∧
    m.grant < 2 ^ 32 ∧ m.payload = grantPayload m.grant (u32 m.serial)
  same : ∀ m ∈ w.announcements, ∀ m' ∈ w.announcements,
    m.session = m'.session → m.serial = m'.serial → m.grant = m'.grant
  current : ∀ m ∈ w.announcements, w.ours.session = some m.session →
    m.serial ≤ w.ours.changes ∧ (m.serial = w.ours.changes → m.grant = w.ours.grant)
  answered : ∀ a ∈ w.acks, a.session ∈ w.theirKeys ∧ a.serial < 2 ^ 31 ∧
    a.payload = grantAckPayload (u32 a.serial) ∧
      (w.theirs.session = some a.session → ∃ m ∈ w.heard, m.serial = a.serial)
  opened : ∀ m ∈ w.heard, m ∈ w.announcements ∧ w.theirs.session = some m.session
  unconfirmed : w.theirs.confirmed = false → w.heard = []
  unheard : w.heard = [] → w.theirs.theirGrantGeneration = 0
  newest : w.heard ≠ [] → ∃ m ∈ w.heard, (∀ m' ∈ w.heard, m'.serial ≤ m.serial) ∧
    w.theirs.theirGrantGeneration = u32 m.serial ∧ w.theirs.theirGrant = m.grant

theorem Inv.start (recvGrant : ℕ) : (start recvGrant).Inv where
  generation := rfl
  few := Nat.two_pow_pos 31
  word := Nat.mod_lt _ (by decide)
  raised := by simp [Granting.start, Granter.register]
  settled := by simp [Granting.start, Granter.register]
  ourKey := by simp [Granting.start, Granter.register]
  theirKey := by simp [Granting.start, Grantee.register]
  sent := by simp [Granting.start]
  same := by simp [Granting.start]
  current := by simp [Granting.start]
  answered := by simp [Granting.start]
  opened := by simp [Granting.start]
  unconfirmed := by simp [Granting.start]
  unheard := by simp [Granting.start, Grantee.register]
  newest := by simp [Granting.start]

variable {w : Granting}

/-! ### Steps of the granting side -/

theorem Inv.registerOurs (h : w.Inv) (recvGrant : ℕ) :
    { w with ours := .register recvGrant }.Inv :=
  { h with
    generation := rfl
    few := Nat.two_pow_pos 31
    word := Nat.mod_lt _ (by decide)
    raised := by simp [Granter.register]
    settled := by simp [Granter.register]
    ourKey := by simp [Granter.register]
    current := by simp [Granter.register] }

theorem Inv.raise (h : w.Inv) {value : ℕ} (hv : value < 2 ^ 32)
    (hfew : w.ours.changes + 1 < 2 ^ 31) :
    { w with ours := w.ours.applyGrant value }.Inv :=
  { h with
    generation := by
      change u32 (w.ours.ourGrantGeneration + 1) = u32 (w.ours.changes + 1)
      rw [h.generation]
      unfold u32
      omega
    few := hfew
    word := hv
    raised := fun _ => Nat.succ_pos _
    settled := by simp [Granter.applyGrant, Granter.raise]
    ourKey := h.ourKey
    current := by
      intro m hm hs
      have hle : m.serial ≤ w.ours.changes := (h.current m hm hs).1
      constructor
      · exact Nat.le_succ_of_le hle
      · intro heq
        change m.serial = w.ours.changes + 1 at heq
        omega }

theorem Inv.bookkeeping (h : w.Inv) (sentAt strikes lastStall : ℕ) :
    { w with ours := { w.ours with
        grantSentAtMicros := sentAt, stallReclaims := strikes, lastStallMicros := lastStall } }.Inv :=
  { h with }

theorem Inv.openOurs (h : w.Inv) :
    { w with ours := { w.ours with confirmed := true } }.Inv :=
  { h with settled := fun hp hc => ⟨rfl, (h.settled hp hc).2⟩ }

theorem cutValue_lt {current : ℕ} (h : current < 2 ^ 32) : Granter.cutValue current < 2 ^ 32 := by
  unfold Granter.cutValue grantCutDivisor grantCutFloor
  split <;> omega

theorem Inv.cut (h : w.Inv) (now : ℕ)
    (hfew : (w.ours.cutGrantIfAbusive now).changes < 2 ^ 31) :
    { w with ours := w.ours.cutGrantIfAbusive now }.Inv := by
  unfold Granter.cutGrantIfAbusive at hfew ⊢
  split_ifs at hfew ⊢ with hstale hfewStrikes hunlimited hfloor
  · exact h.bookkeeping _ _ _
  · exact h
  · exact h.bookkeeping _ _ _
  · exact h.bookkeeping _ _ _
  · exact (h.bookkeeping w.ours.grantSentAtMicros 0 w.ours.lastStallMicros).raise
      (cutValue_lt h.word) hfew

variable {key : ℕ}

/-- A session never held before: no announcement of it exists, and the record that takes it
has acknowledged nothing. -/
theorem Inv.adopt (h : w.Inv) (hopen : w.ours.confirmed = false)
    (hkey : key ∉ w.ourKeys) :
    { w with ours := { w.ours with session := some key }, ourKeys := key :: w.ourKeys }.Inv :=
  { h with
    settled := by
      intro hp hc
      have htrue : w.ours.confirmed = true := (h.settled hp hc).1
      simp [hopen] at htrue
    ourKey := by
      intro k hk
      cases hk
      exact List.mem_cons_self
    sent := by
      intro m hm
      obtain ⟨hmem, hrest⟩ := h.sent m hm
      exact ⟨List.mem_cons_of_mem _ hmem, hrest⟩
    current := by
      intro m hm hs
      cases hs
      exact absurd (h.sent m hm).1 hkey }

theorem Inv.commitOurs (h : w.Inv) (recvGrant : ℕ)
    (hopen : w.ours.confirmed = false) (hkey : key ∉ w.ourKeys)
    (hfew : (w.ours.commitSession recvGrant key).changes < 2 ^ 31) :
    { w with
      ours := w.ours.commitSession recvGrant key, ourKeys := key :: w.ourKeys }.Inv := by
  unfold Granter.commitSession at hfew ⊢
  split_ifs at hfew ⊢ with hgrant
  · exact (h.adopt hopen hkey).raise h.word hfew
  · exact h.adopt hopen hkey

theorem Inv.sendPendingGrant (h : w.Inv) (now : ℕ) :
    (w.sendPendingGrant now).Inv := by
  unfold Granting.sendPendingGrant
  cases hs : w.ours.session with
  | none => exact h
  | some key =>
    by_cases hannounce : w.ours.announces now
    · have hpending : w.ours.grantSendPending = true := by
        simp only [Granter.announces, Bool.and_eq_true] at hannounce
        exact hannounce.1
      simp only [hannounce, if_true]
      -- the new announcement repeats the value every other one of its change carries
      exact {
        h with
        settled := by simp [hpending]
        sent := by
          intro m hm
          rcases List.mem_append.mp hm with hm | hm
          · exact h.sent m hm
          · rw [List.mem_singleton.mp hm]
            exact ⟨h.ourKey key hs, h.raised hpending, h.few, h.word,
              by rw [h.generation]⟩
        same := by
          have hnew (m : Announcement) (hm : m ∈ w.announcements) (hk : m.session = key)
              (hn : m.serial = w.ours.changes) : m.grant = w.ours.grant :=
            (h.current m hm (by rw [hs, hk])).2 hn
          intro m hm m' hm' hk hn
          rcases List.mem_append.mp hm with hm | hm <;>
            rcases List.mem_append.mp hm' with hm' | hm'
          · exact h.same m hm m' hm' hk hn
          · rw [List.mem_singleton.mp hm'] at hk hn ⊢
            exact hnew m hm hk hn
          · rw [List.mem_singleton.mp hm] at hk hn ⊢
            exact (hnew m' hm' hk.symm hn.symm).symm
          · rw [List.mem_singleton.mp hm, List.mem_singleton.mp hm']
        current := by
          intro m hm hk
          rcases List.mem_append.mp hm with hm | hm
          · exact h.current m hm hk
          · rw [List.mem_singleton.mp hm]
            exact ⟨Nat.le_refl _, fun _ => rfl⟩
        opened := by
          intro m hm
          exact ⟨List.mem_append_left _ (h.opened m hm).1, (h.opened m hm).2⟩ }
    · simp only [hannounce]
      exact h

/-- An acknowledgement of the session held clears the flag only for the last change. -/
theorem Inv.takeAck (h : w.Inv) {a : GrantAck} (ha : a ∈ w.acks) :
    (w.takeAck a).Inv := by
  unfold Granting.takeAck
  split_ifs with hs
  · have hopen := h.openOurs
    unfold Granter.acked
    split_ifs with hshort hmatch
    · exact hopen
    · obtain ⟨-, hserial, hpayload, -⟩ := h.answered a ha
      have hlast : a.serial = w.ours.changes := by
        apply u32_inj_of_lt hserial h.few
        rw [← grantAckPayload_generation a.serial, ← hpayload, ← h.generation]
        exact hmatch.2
      exact { hopen with
        raised := by simp
        settled := fun _ _ => ⟨rfl, a, ha, hs, hlast⟩ }
    · exact hopen
  · exact h

/-! ### Steps of the remote -/

theorem Inv.registerTheirs (h : w.Inv) :
    { w with theirs := .register, heard := [] }.Inv :=
  { h with
    theirKey := by simp [Grantee.register]
    answered := by
      intro a ha
      obtain ⟨hkey, hserial, hpayload, -⟩ := h.answered a ha
      exact ⟨hkey, hserial, hpayload, by simp [Grantee.register]⟩
    opened := by simp
    unconfirmed := fun _ => rfl
    unheard := fun _ => rfl
    newest := by simp }

theorem Inv.commitTheirs (h : w.Inv)
    (hopen : w.theirs.confirmed = false) (hkey : key ∉ w.theirKeys) :
    { w with
      theirs := { w.theirs with session := some key }, theirKeys := key :: w.theirKeys }.Inv :=
  have hnone : w.heard = [] := h.unconfirmed hopen
  { h with
    theirKey := by
      intro k hk
      cases hk
      exact List.mem_cons_self
    answered := by
      intro a ha
      obtain ⟨hmem, hserial, hpayload, -⟩ := h.answered a ha
      refine ⟨List.mem_cons_of_mem _ hmem, hserial, hpayload, fun hs => ?_⟩
      cases hs
      exact absurd hmem hkey
    opened := by simp [hnone] }

theorem Inv.openTheirs (h : w.Inv) :
    { w with theirs := { w.theirs with confirmed := true } }.Inv :=
  { h with unconfirmed := by simp }

variable {m : Announcement}

theorem update_announcement (p : Grantee) (hgrant : m.grant < 2 ^ 32)
    (hpayload : m.payload = grantPayload m.grant (u32 m.serial)) :
    p.update m.payload =
      (if 0 < signedDifference (u32 m.serial) p.theirGrantGeneration then
        { p with theirGrantGeneration := u32 m.serial, theirGrant := m.grant } else p,
        some (grantAckPayload (u32 m.serial))) := by
  have hlength : ¬ m.payload.length < wireGrantPayloadSize := by
    rw [hpayload]
    simp [grantPayload, wireGrantPayloadSize]
  rw [Grantee.update, if_neg hlength, hpayload, grantPayload_grant hgrant,
    grantPayload_generation]

/-- The serial the remote's generation stands for: the newest heard, or none at all. -/
theorem Inv.applied (h : w.Inv) :
    ∃ t < 2 ^ 31, w.theirs.theirGrantGeneration = u32 t ∧ (∀ m ∈ w.heard, m.serial ≤ t) ∧
      (0 < t → ∃ m ∈ w.heard, m.serial = t ∧ w.theirs.theirGrant = m.grant) := by
  by_cases hnone : w.heard = []
  · refine ⟨0, Nat.two_pow_pos 31, h.unheard hnone, ?_, ?_⟩
    · simp [hnone]
    · intro hpos
      exact absurd hpos (Nat.lt_irrefl 0)
  · obtain ⟨m, hm, hmax, hgen, hgrant⟩ := h.newest hnone
    obtain ⟨-, -, hserial, -⟩ := h.sent m (h.opened m hm).1
    exact ⟨m.serial, hserial, hgen, hmax, fun _ => ⟨m, hm, rfl, hgrant⟩⟩

theorem Inv.update_older (h : w.Inv) {m' : Announcement}
    (hm : m ∈ w.announcements) (hm' : m' ∈ w.heard) (hle : m.serial ≤ m'.serial) :
    (w.theirs.update m.payload).1 = w.theirs := by
  obtain ⟨t, ht, hgen, hmax, -⟩ := h.applied
  obtain ⟨-, -, hserial, hgrant, hpayload⟩ := h.sent m hm
  have hold : ¬ 0 < signedDifference (u32 m.serial) w.theirs.theirGrantGeneration := by
    rw [hgen, signedDifference_pos_iff (by omega) (by omega)]
    have := hmax m' hm'
    omega
  rw [update_announcement _ hgrant hpayload, if_neg hold]

/-- An announcement opened and answered, whatever the record makes of it, as long as the
newest one heard is the one applied. -/
theorem Inv.hear (h : w.Inv) (hm : m ∈ w.announcements)
    (hs : w.theirs.session = some m.session) {p : Grantee} (hp : p.session = w.theirs.session)
    (hconf : p.confirmed = true)
    (hnewest : ∃ m₀ ∈ w.heard ++ [m], (∀ m' ∈ w.heard ++ [m], m'.serial ≤ m₀.serial) ∧
      p.theirGrantGeneration = u32 m₀.serial ∧ p.theirGrant = m₀.grant) :
    { w with
      theirs := p
      acks := w.acks ++ [GrantAck.mk m.session (grantAckPayload (u32 m.serial)) m.serial]
      heard := w.heard ++ [m] }.Inv :=
  { h with
    settled := by
      intro hpend hc
      obtain ⟨hours, a, ha, hrest⟩ := h.settled hpend hc
      exact ⟨hours, a, List.mem_append_left _ ha, hrest⟩
    theirKey := fun key hk => h.theirKey key (hp ▸ hk)
    answered := by
      intro a ha
      rcases List.mem_append.mp ha with ha | ha
      · obtain ⟨hkey, hserial, hpayload, hheard⟩ := h.answered a ha
        refine ⟨hkey, hserial, hpayload, fun hk => ?_⟩
        obtain ⟨m', hm', hn⟩ := hheard (hp ▸ hk)
        exact ⟨m', List.mem_append_left _ hm', hn⟩
      · rw [List.mem_singleton.mp ha]
        exact ⟨h.theirKey _ hs, (h.sent m hm).2.2.1, rfl, fun _ => ⟨m, by simp, rfl⟩⟩
    opened := by
      intro m' hm'
      rw [hp]
      rcases List.mem_append.mp hm' with hm' | hm'
      · exact h.opened m' hm'
      · rw [List.mem_singleton.mp hm']
        exact ⟨hm, hs⟩
    unconfirmed := by simp [hconf]
    unheard := by simp
    newest := fun _ => hnewest }

theorem Inv.takeAnnouncement (h : w.Inv)
    (hm : m ∈ w.announcements) : (w.takeAnnouncement m).Inv := by
  unfold Granting.takeAnnouncement
  split_ifs with hs
  · obtain ⟨t, ht, hgen, hmax, hlast⟩ := h.applied
    obtain ⟨-, hpos, hserial, hgrant, hpayload⟩ := h.sent m hm
    have hage : 0 < signedDifference (u32 m.serial) w.theirs.theirGrantGeneration ↔
        t < m.serial := by
      rw [hgen]
      exact signedDifference_pos_iff (by omega) (by omega)
    rw [update_announcement _ hgrant hpayload]
    simp only [Option.toList_some, List.map_cons, List.map_nil, hage]
    apply h.hear hm hs
    · split_ifs <;> rfl
    · split_ifs <;> rfl
    · split_ifs with hnew
      · -- newer than everything heard: it is applied
        refine ⟨m, by simp, ?_, rfl, rfl⟩
        intro m' hm'
        rcases List.mem_append.mp hm' with hm' | hm'
        · have := hmax m' hm'
          omega
        · obtain rfl := List.mem_singleton.mp hm'
          exact Nat.le_refl _
      · -- a straggler: the newest one heard stays in force
        obtain ⟨m₀, hm₀, rfl, hgrant₀⟩ := hlast (by omega)
        refine ⟨m₀, List.mem_append_left _ hm₀, ?_, hgen, hgrant₀⟩
        intro m' hm'
        rcases List.mem_append.mp hm' with hm' | hm'
        · exact hmax m' hm'
        · rw [List.mem_singleton.mp hm']
          omega
  · exact h

/-! ### Runs -/

theorem Inv.step (h : w.Inv) (recvGrant : ℕ) (e : GrantEvent)
    (hfew : (step recvGrant w e).ours.changes < 2 ^ 31) : (step recvGrant w e).Inv := by
  cases e with
  | registerOurs => exact h.registerOurs recvGrant
  | commitOurs key =>
    rw [Granting.step] at hfew ⊢
    split_ifs at hfew ⊢ with hguard
    · exact h.commitOurs recvGrant hguard.1 hguard.2 hfew
    · exact h
  | openOurs =>
    rw [Granting.step]
    split_ifs
    · exact h.openOurs
    · exact h
  | setRecvGrant slots => exact h.raise (Nat.mod_lt _ (by decide)) hfew
  | strike now => exact h.bookkeeping _ _ _
  | tick cutAt now =>
    have hcut : (w.ours.cutGrantIfAbusive cutAt).changes < 2 ^ 31 := by
      rw [Granting.step, Granting.sendPendingGrant] at hfew
      split at hfew
      · exact hfew
      · split_ifs at hfew <;> exact hfew
    exact (h.cut cutAt hcut).sendPendingGrant now
  | deliverAck i =>
    rw [Granting.step]
    cases ha : w.acks[i]? with
    | none => exact h
    | some a => exact h.takeAck (List.mem_of_getElem? ha)
  | registerTheirs => exact h.registerTheirs
  | commitTheirs key =>
    rw [Granting.step]
    split_ifs with hguard
    · exact h.commitTheirs hguard.1 hguard.2
    · exact h
  | openTheirs =>
    rw [Granting.step]
    split_ifs
    · exact h.openTheirs
    · exact h
  | deliverAnnouncement i =>
    rw [Granting.step]
    cases hm : w.announcements[i]? with
    | none => exact h
    | some m => exact h.takeAnnouncement (List.mem_of_getElem? hm)

theorem Inv.run (recvGrant : ℕ) {es : List GrantEvent}
    (hfew : Along (Granting.step recvGrant)
      (fun w e => (Granting.step recvGrant w e).ours.changes < 2 ^ 31)
      (Granting.start recvGrant) es) :
    (run (Granting.step recvGrant) (Granting.start recvGrant) es).Inv :=
  run_invariant _ Inv _ (fun _ e hfew h => h.step recvGrant e hfew) (Inv.start recvGrant) hfew

/-- The last change acknowledged in a session both sides hold is the one in force there. -/
theorem Inv.agreed (h : w.Inv) (hsame : w.ours.session = w.theirs.session)
    (hsome : 0 < w.ours.changes) (hsettled : w.ours.grantSendPending = false) :
    w.theirs.theirGrant = w.ours.grant := by
  obtain ⟨-, a, ha, hs, hserial⟩ := h.settled hsettled hsome
  obtain ⟨m', hm', hn'⟩ := (h.answered a ha).2.2.2 (by rw [← hsame, hs])
  obtain ⟨m, hm, hmax, -, hgrant⟩ := h.newest (List.ne_nil_of_mem hm')
  obtain ⟨hmem, hsession⟩ := h.opened m hm
  obtain ⟨hle, hvalue⟩ := h.current m hmem (by rw [hsame, hsession])
  have hlast : m.serial = w.ours.changes := by
    have := hmax m' hm'
    omega
  rw [hgrant, hvalue hlast]

/-- Through any handshakes, changes of the grant and cuts, with announcements and
acknowledgements lost, repeated and reordered, and fewer than `2 ^ 31` generations raised on
a record: what the remote applies is the newest announcement it heard in the session, an
announcement not newer than one heard changes nothing, and a grant that was announced and
has nothing outstanding is the one the remote applies. -/
theorem grant_agreement (recvGrant : ℕ) (es : List GrantEvent)
    (hfew : Along (step recvGrant) (fun w e => (step recvGrant w e).ours.changes < 2 ^ 31)
      (start recvGrant) es) :
    let w := run (step recvGrant) (start recvGrant) es
    (∀ m ∈ w.heard, (∀ m' ∈ w.heard, m'.serial ≤ m.serial) → w.theirs.theirGrant = m.grant) ∧
    (∀ m ∈ w.announcements, ∀ m' ∈ w.heard, m.serial ≤ m'.serial →
      (w.takeAnnouncement m).theirs.theirGrant = w.theirs.theirGrant ∧
      (w.takeAnnouncement m).theirs.theirGrantGeneration = w.theirs.theirGrantGeneration) ∧
    (w.ours.session = w.theirs.session → 0 < w.ours.changes →
      w.ours.grantSendPending = false → w.theirs.theirGrant = w.ours.grant) := by
  intro w
  have h : w.Inv := Inv.run recvGrant hfew
  refine ⟨?_, ?_, h.agreed⟩
  · intro m hm hmax
    obtain ⟨m₀, hm₀, hmax₀, -, hgrant₀⟩ := h.newest (List.ne_nil_of_mem hm)
    obtain ⟨hmem, hs⟩ := h.opened m hm
    obtain ⟨hmem₀, hs₀⟩ := h.opened m₀ hm₀
    have hserial : m₀.serial = m.serial := Nat.le_antisymm (hmax m₀ hm₀) (hmax₀ m hm)
    have hsession : m₀.session = m.session := by
      rw [hs] at hs₀
      exact (Option.some.inj hs₀).symm
    rw [hgrant₀]
    exact h.same m₀ hmem₀ m hmem hsession hserial
  · intro m hm m' hm' hle
    have hold := h.openTheirs.update_older hm hm' hle
    rw [Granting.takeAnnouncement]
    split_ifs
    · simp only [hold, and_self]
    · exact ⟨rfl, rfl⟩

/-- Two values announced, the second delivered first, then the first as a straggler; the
acknowledgement of the second settles the grant on both sides. -/
theorem grant_agreement_straggler :
    let es : List GrantEvent := [.commitOurs 0, .commitTheirs 0, .tick 1 1, .setRecvGrant 8,
      .tick 2 2, .deliverAnnouncement 1, .deliverAnnouncement 0, .deliverAck 0, .deliverAck 1]
    let w := run (step 16) (start 16) es
    w.ours.session = w.theirs.session ∧ 0 < w.ours.changes ∧ w.ours.grantSendPending = false ∧
      w.ours.grant = 8 ∧ w.theirs.theirGrant = w.ours.grant := by
  intro es w
  have hsame : w.ours.session = w.theirs.session := by decide +kernel
  have hsome : 0 < w.ours.changes := by decide +kernel
  have hsettled : w.ours.grantSendPending = false := by decide +kernel
  have hgrant : w.ours.grant = 8 := by decide +kernel
  exact ⟨hsame, hsome, hsettled, hgrant,
    (grant_agreement 16 es (by decide +kernel)).2.2 hsame hsome hsettled⟩

end Granting

end BcpFlux.Socket
