import BcpFlux.Crypto.Seal
import BcpFlux.Library.HashIndex
import BcpFlux.Library.Runs
import BcpFlux.Pool.SlotPool
import BcpFlux.Transfer.Incoming

/-! # The certificate store

Certificates in slots that are never freed, found by identity tag through an index like the peer
table's: a map from tags to pinned keys, whatever hashes collide.
-/

namespace BcpFlux.Crypto
open Library Library.RobinHood Library.HashIndex Pool Transfer Function

/-- The store reads nothing else of a certificate. -/
structure Certificate where
  subjectKey : Key
  identityTag : Key

inductive Match where
  | notFound
  | trusted
  | mismatch
deriving DecidableEq

structure CertStore where
  capacity : ℕ
  idxCapacity : ℕ
  index : ℕ → Option (Entry Key ℕ)
  certs : ℕ → Certificate
  count : ℕ
  certPool : SlotPool

namespace CertStore

def maxLoadPercent : ℕ := 85

def need (capacity : ℕ) : ℕ := (capacity * 100 + maxLoadPercent - 1) / maxLoadPercent

/-- A tag is a hash already: its first eight bytes, away from zero. -/
def hashTag (tag : Key) : ℕ :=
  if ofLeBytes (tag.take 8) = 0 then 1 else ofLeBytes (tag.take 8)

def init (capacity : ℕ) : Option CertStore :=
  if capacity = 0 then none
  else if 2 ^ 30 < need capacity then none
  else (SlotPool.init capacity).map fun pool =>
    { capacity := capacity
      idxCapacity := nextPowerOfTwo (need capacity)
      index := fun _ => none
      certs := fun _ => ⟨List.replicate 32 0, List.replicate 32 0⟩
      count := 0
      certPool := pool }

def store (s : CertStore) (cert : Certificate) : Acquired SlotPool → Option (Error × CertStore)
  | .invalid => some (.limitReached, s)
  | .spins => none
  | .index slot pool => do
    let index ← insertEntry s.idxCapacity s.index (hashTag cert.identityTag) cert.identityTag slot
    some (.ok,
      { s with
        index := index
        certs := update s.certs slot cert
        count := s.count + 1
        certPool := pool })

/-- `Add`; no result if a loop does not end. -/
def add (s : CertStore) (cert : Certificate) (hint : ℕ) : Option (Error × CertStore) := do
  let pos ← findPos s.idxCapacity s.index (hashTag cert.identityTag) cert.identityTag
  match pos with
  | some p =>
    -- the same tag again: superseded in place
    some (.ok, { s with certs := update s.certs (((s.index p).map Entry.value).getD 0) cert })
  | none =>
    if s.capacity ≤ s.count then some (.limitReached, s)
    else s.store cert (s.certPool.acquire hint)

/-- `Check`: the tag is settled inside the slot, then the key decides. -/
def check (s : CertStore) (tag presentedKey : Key) : Match :=
  match lookup s.idxCapacity s.index (hashTag tag) fun slot => (s.certs slot).identityTag = tag with
  | none => .notFound
  | some slot => if (s.certs slot).subjectKey = presentedKey then .trusted else .mismatch

/-- The verdict of a map from tags to keys. -/
def verdict (pinned : Key → Option Key) (tag key : Key) : Match :=
  match pinned tag with
  | none => .notFound
  | some pin => if pin = key then .trusted else .mismatch

/-- The index leads each pinned tag to a slot of its own, which holds its certificate. -/
structure Filed (s : CertStore) (slots : Finmap fun _ : Key => ℕ) (pinned : Key → Option Key) :
    Prop where
  index : Holds s.idxCapacity hashTag s.index slots
  cert : ∀ tag, (slots.lookup tag).map s.certs = (pinned tag).map fun key => ⟨key, tag⟩
  count : s.count = slots.entries.card
  fit : slots.entries.card ≤ s.capacity
  room : s.capacity < s.idxCapacity
  pool : s.certPool.Tracks {slot | ∃ tag, slots.lookup tag = some slot}

section Filed
variable {s : CertStore} {slots : Finmap fun _ : Key => ℕ} {pinned : Key → Option Key}
  {cert : Certificate} {slot : ℕ}

theorem Filed.lt_buckets (h : s.Filed slots pinned) : slots.entries.card < s.idxCapacity :=
  lt_of_le_of_lt h.fit h.room

theorem Filed.identityTag (h : s.Filed slots pinned) {tag : Key} (hslot : slots.lookup tag = some slot) :
    (s.certs slot).identityTag = tag := by
  have hcert := h.cert tag
  rw [hslot, Option.map_some, eq_comm, Option.map_eq_some_iff] at hcert
  obtain ⟨key, -, heq⟩ := hcert
  rw [← heq]

theorem Filed.check_eq (h : s.Filed slots pinned) (tag key : Key) :
    s.check tag key = verdict pinned tag key := by
  have hverify : ∀ tag' slot, slots.lookup tag' = some slot →
      (decide ((s.certs slot).identityTag = tag) = true ↔ tag' = tag) := by
    intro tag' slot hslot
    rw [decide_eq_true_iff, h.identityTag hslot]
  have hcert := h.cert tag
  rw [check, h.index.lookup_eq h.lt_buckets hverify, verdict]
  cases hslot : slots.lookup tag <;> cases hpin : pinned tag <;> simp_all

theorem Filed.write (h : s.Filed slots pinned) {slots' : Finmap fun _ : Key => ℕ}
    (hown : slots'.lookup cert.identityTag = some slot)
    (hrest : ∀ tag, tag ≠ cert.identityTag → slots'.lookup tag = slots.lookup tag)
    (hfree : ∀ tag, tag ≠ cert.identityTag → slots.lookup tag ≠ some slot) (tag : Key) :
    (slots'.lookup tag).map (update s.certs slot cert) =
      (update pinned cert.identityTag (some cert.subjectKey) tag).map fun key => ⟨key, tag⟩ := by
  by_cases hsame : tag = cert.identityTag
  · subst hsame
    simp [hown]
  · rw [hrest tag hsame, update_of_ne hsame, ← h.cert tag]
    cases hold : slots.lookup tag with
    | none => rfl
    | some other =>
      have hne : other ≠ slot := fun heq => hfree tag hsame (heq ▸ hold)
      simp [hne]

theorem slots_insert {tag : Key} (hnew : slots.lookup tag = none) (slot : ℕ) :
    {other | ∃ tag', (slots.insert tag slot).lookup tag' = some other} =
      insert slot {other | ∃ tag', slots.lookup tag' = some other} := by
  ext other
  by_cases hother : other = slot
  · subst hother
    simp only [Set.mem_ofPred_eq, Set.mem_insert_iff, true_or, iff_true]
    exact ⟨tag, Finmap.lookup_insert _⟩
  · simp [hother, lookup_insert_new hnew hother]

theorem Filed.add (h : s.Filed slots pinned) (cert : Certificate) (hint : ℕ) :
    ∃ code s', s.add cert hint = some (code, s') ∧
      ((code = .ok ∧
          ∃ slots', s'.Filed slots' (update pinned cert.identityTag (some cert.subjectKey))) ∨
        (code = .limitReached ∧ s' = s ∧ pinned cert.identityTag = none)) := by
  rcases h.index.findPos_cases h.lt_buckets cert.identityTag with
    ⟨hnew, hfind⟩ | ⟨p, hp, slot, hslot, hfind, hcell⟩
  · have hunpinned : pinned cert.identityTag = none := by
      have hcert := h.cert cert.identityTag
      rw [hnew] at hcert
      exact Option.map_eq_none_iff.mp hcert.symm
    simp only [CertStore.add, hfind, Option.bind_eq_bind, Option.bind_some]
    split_ifs with hfull
    · exact ⟨_, _, rfl, .inr ⟨rfl, rfl, hunpinned⟩⟩
    rcases h.pool.acquire_cases hint with ⟨hpool, -⟩ | ⟨slot, pool, hpool, -, -, hfree, htracks⟩
    · rw [hpool]
      exact ⟨_, _, rfl, .inr ⟨rfl, rfl, hunpinned⟩⟩
    -- a new tag goes into a slot nobody has
    obtain ⟨index, hinsert, hindex⟩ := h.index.insertEntry_holds h.lt_buckets hnew slot
    have hcard : (slots.insert cert.identityTag slot).entries.card = slots.entries.card + 1 := by
      rw [Finmap.entries_insert_of_notMem (Finmap.lookup_eq_none.mp hnew), Multiset.card_cons]
    have hcount := h.count
    rw [hpool, store, hinsert]
    refine ⟨_, _, rfl, .inl ⟨rfl, _, hindex, ?_, ?_, ?_, h.room, ?_⟩⟩
    · apply h.write (Finmap.lookup_insert _)
      · exact fun tag hsame => Finmap.lookup_insert_of_ne _ hsame
      · exact fun tag _ hslot => hfree ⟨tag, hslot⟩
    · rw [hcard, hcount]
    · dsimp only
      omega
    · rw [slots_insert hnew]
      exact htracks
  · simp only [CertStore.add, hfind, hcell, Option.bind_eq_bind, Option.bind_some]
    refine ⟨_, _, rfl, .inl ⟨rfl, slots, h.index, ?_, h.count, h.fit, h.room, h.pool⟩⟩
    apply h.write hslot
    · exact fun _ _ => rfl
    · intro tag hsame hother
      exact hsame ((h.identityTag hother).symm.trans (h.identityTag hslot))

end Filed

theorem filed_init {capacity : ℕ} {s : CertStore} (h : init capacity = some s) :
    s.Filed ∅ fun _ => none := by
  unfold init at h
  split_ifs at h with hzero hneed
  obtain ⟨pool, hpool, rfl⟩ := Option.map_eq_some_iff.mp h
  have hle := le_nextPowerOfTwo (Nat.not_lt.mp hneed)
  simp only [need, maxLoadPercent] at hneed hle
  have hword : capacity < 2 ^ 32 := by omega
  refine ⟨holds_empty, fun _ => rfl, rfl, Nat.zero_le _, ?_, ?_⟩
  · simp only [need, maxLoadPercent]
    omega
  · simpa using SlotPool.tracks_init hword hpool

/-- A store, and the key of the latest accepted certificate of each tag. -/
structure Logged where
  store : CertStore
  pinned : Key → Option Key

def Logged.add (l : Logged) (call : Certificate × ℕ) : Logged :=
  match l.store.add call.1 call.2 with
  | some (.ok, s) => ⟨s, update l.pinned call.1.identityTag (some call.1.subjectKey)⟩
  | some (_, s) => ⟨s, l.pinned⟩
  | none => l

theorem Logged.filed_add {l : Logged} (h : ∃ slots, l.store.Filed slots l.pinned)
    (call : Certificate × ℕ) : ∃ slots, (l.add call).store.Filed slots (l.add call).pinned := by
  obtain ⟨slots, hfiled⟩ := h
  obtain ⟨code, s', hadd, ⟨rfl, hpinned⟩ | ⟨rfl, rfl, -⟩⟩ := hfiled.add call.1 call.2
  · simpa [Logged.add, hadd] using hpinned
  · simpa [Logged.add, hadd] using ⟨slots, hfiled⟩

/-- After any sequence of `Add` calls a verdict is that of the latest accepted keys, and the
next `Add` returns: it accepts every tag it has a certificate for, and if it refuses no verdict
changes. -/
theorem store_is_map {capacity : ℕ} {s : CertStore} (hinit : init capacity = some s)
    (calls : List (Certificate × ℕ)) :
    let l := run Logged.add ⟨s, fun _ => none⟩ calls
    (∀ tag key, l.store.check tag key = verdict l.pinned tag key) ∧
    ∀ cert hint, ∃ code s', l.store.add cert hint = some (code, s') ∧
      (l.pinned cert.identityTag ≠ none → code = .ok) ∧
      (code ≠ .ok → ∀ tag key, s'.check tag key = l.store.check tag key) := by
  intro l
  obtain ⟨slots, hfiled⟩ : ∃ slots, l.store.Filed slots l.pinned :=
    run_invariant Logged.add (fun l => ∃ slots, l.store.Filed slots l.pinned) (fun _ _ => True)
      (fun _ call _ h => Logged.filed_add h call) ⟨∅, filed_init hinit⟩ (along_true _ _ calls)
  refine ⟨hfiled.check_eq, fun cert hint => ?_⟩
  obtain ⟨code, s', hadd, ⟨rfl, -⟩ | ⟨rfl, rfl, hnone⟩⟩ := hfiled.add cert hint
  · exact ⟨_, _, hadd, fun _ => rfl, fun hne => absurd rfl hne⟩
  · exact ⟨_, _, hadd, fun hpinned => absurd hnone hpinned, fun _ _ _ => rfl⟩

/-- A full store refuses a second tag of the same hash and takes a new key for the first. -/
theorem store_is_map_full :
    let tag := [1, 2, 3, 4, 5, 6, 7, 8, 9]
    let calls := [(⟨[10], tag⟩, 0), (⟨[11], tag ++ [1]⟩, 0), (⟨[12], tag⟩, 0)]
    let l := run Logged.add ⟨(init 1).get rfl, fun _ => none⟩ calls
    l.store.check tag [12] = .trusted ∧ l.store.check (tag ++ [1]) [11] = .notFound := by
  intro tag calls l
  have hmap := (store_is_map (Option.some_get (x := init 1) rfl).symm calls).1
  exact ⟨(hmap _ _).trans (by decide +kernel), (hmap _ _).trans (by decide +kernel)⟩

end CertStore

end BcpFlux.Crypto
