import BcpFlux.Peer.Indexes

/-! # The peer table as three maps

What the table is for: a finite map from addresses to slots, one from ids to slots, and a
relation between tags and slots in which a pair may stand several times.  Next to them are the
slots about which an event waits to be read; behind them are the records of the peers and the
pool their slots come from.
-/

namespace BcpFlux.Peer
open Library Library.RobinHood Library.HashIndex Pool Transfer Crypto Function

/-! ## Tags and their hashes -/

theorem ofLeBytes_inj : ∀ {as bs : List UInt8}, as.length = bs.length →
    ofLeBytes as = ofLeBytes bs → as = bs
  | [], [], _, _ => rfl
  | a :: as, b :: bs, hlen, heq => by
    rw [ofLeBytes, ofLeBytes] at heq
    have ha := a.toNat_lt
    have hb := b.toNat_lt
    have htail : ofLeBytes as = ofLeBytes bs := by omega
    have hhead : a.toNat = b.toNat := by omega
    rw [ofLeBytes_inj (Nat.succ.inj hlen) htail, UInt8.toNat_inj.mp hhead]

theorem hashTag_inj {tag tag' : PeerTag} (h : hashTag tag = hashTag tag') : tag = tag' := by
  obtain ⟨bytes, hsize⟩ := tag
  obtain ⟨bytes', hsize'⟩ := tag'
  obtain rfl : bytes = bytes' := ofLeBytes_inj (hsize.trans hsize'.symm) h
  rfl

/-- The entry that stands for a bound tag. -/
def TagEntry.of (x : PeerTag × ℕ) : TagEntry := ⟨hashTag x.1, x.2⟩

theorem TagEntry.of_injective : Injective TagEntry.of := by
  rintro ⟨tag, slot⟩ ⟨tag', slot'⟩ heq
  have hboth : hashTag tag = hashTag tag' ∧ slot = slot' := by
    simpa [TagEntry.of] using heq
  rw [hashTag_inj hboth.1, hboth.2]

/-! ## The maps -/

structure Maps where
  byAddr : Finmap fun _ : Address => ℕ
  byId : Finmap fun _ : BcpId => ℕ
  byTag : Multiset (PeerTag × ℕ)
  unread : Set ℕ

structure Limits where
  peers : ℕ
  tags : ℕ
  slots : ℕ

namespace Maps
open Classical

def empty : Maps := ⟨∅, ∅, 0, ∅⟩

def Live (m : Maps) (slot : ℕ) : Prop := ∃ addr, m.byAddr.lookup addr = some slot

noncomputable def addrOf (m : Maps) (slot : ℕ) : Option Address :=
  if h : m.Live slot then some h.choose else none

noncomputable def idOf (m : Maps) (slot : ℕ) : Option BcpId :=
  if h : ∃ id, m.byId.lookup id = some slot then some h.choose else none

def fails (m : Maps) (code : Error) : Reply × Maps := (⟨code, none⟩, m)

def succeeds (m : Maps) : Reply × Maps := (⟨.ok, none⟩, m)

def withId (m : Maps) (slot : ℕ) : Option BcpId → Finmap fun _ : BcpId => ℕ
  | none => m.byId
  | some id => m.byId.insert id slot

/-- A new peer takes the slot that is given, if there is one. -/
def seat (m : Maps) (addr : Address) (id : Option BcpId) : Option ℕ → Reply × Maps
  | none => m.fails .limitReached
  | some slot =>
    (⟨.ok, some slot⟩, { m with
      byAddr := m.byAddr.insert addr slot
      byId := m.withId slot id
      unread := m.unread \ {slot} })

noncomputable def registerPeer (m : Maps) (lim : Limits) (addr : Address) (id : Option BcpId)
    (given : Option ℕ) : Reply × Maps :=
  if isSet addr = false then m.fails .invalidParam
  else if lim.peers ≤ m.byAddr.entries.card then m.fails .limitReached
  else if addr ∈ m.byAddr then m.fails .alreadyPending
  else if ∃ i, id = some i ∧ i ∈ m.byId then m.fails .alreadyPending
  else m.seat addr id given

noncomputable def bindId (m : Maps) (lim : Limits) (slot : ℕ) (id : BcpId) : Reply × Maps :=
  if lim.slots ≤ slot then m.fails .invalidParam
  else if ¬ m.Live slot then m.fails .notFound
  else if (∃ i, m.byId.lookup i = some slot) ∨ id ∈ m.byId then m.fails .alreadyPending
  else succeeds { m with byId := m.byId.insert id slot }

noncomputable def drop (m : Maps) (slot : ℕ) : Maps where
  byAddr := (m.addrOf slot).elim m.byAddr m.byAddr.erase
  byId := (m.idOf slot).elim m.byId m.byId.erase
  byTag := m.byTag.filter fun x => x.2 ≠ slot
  unread := m.unread

/-- Whoever is bound to the key is dropped. -/
noncomputable def remove (m : Maps) : Option ℕ → Reply × Maps
  | none => m.fails .notFound
  | some slot => succeeds (m.drop slot)

noncomputable def updateAddress (m : Maps) (lim : Limits) (slot : ℕ) (newAddr : Address) :
    Reply × Maps :=
  if lim.slots ≤ slot ∨ isSet newAddr = false then m.fails .invalidParam
  else
    match m.addrOf slot with
    | none => m.fails .notFound
    | some addr =>
      if newAddr = addr then m.succeeds
      else if newAddr ∈ m.byAddr then m.fails .alreadyPending
      else succeeds { m with byAddr := (m.byAddr.erase addr).insert newAddr slot }

noncomputable def bindTag (m : Maps) (lim : Limits) (slot : ℕ) (tag : PeerTag) : Reply × Maps :=
  if lim.slots ≤ slot then m.fails .invalidParam
  else if hashTag tag = 0 then m.fails .invalidParam
  else if lim.tags ≤ m.byTag.card then m.fails .limitReached
  else if ¬ m.Live slot then m.fails .notFound
  else succeeds { m with byTag := (tag, slot) ::ₘ m.byTag }

noncomputable def unbindTag (m : Maps) (slot : ℕ) (tag : PeerTag) : Reply × Maps :=
  if hashTag tag = 0 then m.fails .invalidParam
  else if (tag, slot) ∉ m.byTag then m.fails .notFound
  else succeeds { m with byTag := m.byTag.erase (tag, slot) }

noncomputable def unbindTags (m : Maps) (slot : ℕ) : Reply × Maps :=
  succeeds { m with byTag := m.byTag.filter fun x => x.2 ≠ slot }

noncomputable def clearEmitting (m : Maps) (lim : Limits) (slot : ℕ) : Reply × Maps :=
  if lim.slots ≤ slot then m.succeeds else succeeds { m with unread := m.unread \ {slot} }

noncomputable def holders (m : Maps) (tag : PeerTag) : Multiset ℕ :=
  (m.byTag.filter fun x => x.1 = tag).map Prod.snd

theorem mem_holders {m : Maps} {tag : PeerTag} {slot : ℕ} :
    slot ∈ m.holders tag ↔ (tag, slot) ∈ m.byTag := by
  rw [holders, Multiset.mem_map]
  constructor
  · rintro ⟨⟨tag', slot'⟩, hx, rfl⟩
    obtain ⟨hmem, rfl⟩ := Multiset.mem_filter.mp hx
    exact hmem
  · intro hmem
    exact ⟨(tag, slot), Multiset.mem_filter.mpr ⟨hmem, rfl⟩, rfl⟩

/-- One operation. -/
noncomputable def apply (m : Maps) (lim : Limits) (given : Option ℕ) : TableOp → Reply × Maps
  | .registerPeer addr id _ => m.registerPeer lim addr id given
  | .bindId slot id => m.bindId lim slot id
  | .updateAddress slot newAddr => m.updateAddress lim slot newAddr
  | .bindTag slot tag => m.bindTag lim slot tag
  | .unbindTag slot tag => m.unbindTag slot tag
  | .unbindTags slot => m.unbindTags slot
  | .removePeer addr => m.remove (m.byAddr.lookup addr)
  | .removePeerById id => m.remove (m.byId.lookup id)
  | .markEmitting slot => succeeds { m with unread := insert slot m.unread }
  | .clearEmitting slot => m.clearEmitting lim slot

/-- What the pool may give to a registration: a slot nobody is registered in, or none, once in
each slot somebody is registered or an event about it is unread. -/
def Gives (m : Maps) (lim : Limits) : Option ℕ → Prop
  | none => ∀ slot < lim.slots, m.Live slot ∨ slot ∈ m.unread
  | some slot => slot < lim.slots ∧ ¬ m.Live slot

theorem exists_gives (m : Maps) (lim : Limits) : ∃ given, m.Gives lim given := by
  by_cases h : ∃ slot < lim.slots, ¬ m.Live slot
  · obtain ⟨slot, hslot⟩ := h
    exact ⟨some slot, hslot⟩
  · exact ⟨none, fun slot hslot => .inl (not_not.mp fun hdead => h ⟨slot, hslot, hdead⟩)⟩

/-- The operations in turn, with the replies they give. -/
inductive Run (lim : Limits) : Maps → List TableOp → List Reply → Maps → Prop where
  | nil (m : Maps) : Run lim m [] [] m
  | cons {m m' : Maps} {ops : List TableOp} {replies : List Reply} (op : TableOp) (given : Option ℕ)
      (hgiven : m.Gives lim given)
      (hrest : Run lim (m.apply lim given op).2 ops replies m') :
      Run lim m (op :: ops) ((m.apply lim given op).1 :: replies) m'

/-- A reply that is no error, or maps as they were; and no slot but the one the pool gave. -/
def Settles (m : Maps) (given : Option ℕ) (r : Reply × Maps) : Prop :=
  (r.1.code = .ok ∨ r.2 = m) ∧ ∀ slot, r.1.slot = some slot → given = some slot

section Settles
variable {given : Option ℕ} (m : Maps)

theorem settles_fails (code : Error) : m.Settles given (m.fails code) := ⟨Or.inr rfl, nofun⟩

theorem settles_succeeds (m' : Maps) : m.Settles given m'.succeeds := ⟨Or.inl rfl, nofun⟩

theorem settles_ite {m : Maps} {c : Prop} [Decidable c] {r r' : Reply × Maps}
    (h : m.Settles given r) (h' : m.Settles given r') : m.Settles given (if c then r else r') := by
  split_ifs
  · exact h
  · exact h'

theorem settles_remove : ∀ slot, m.Settles given (m.remove slot)
  | none => m.settles_fails _
  | some _ => m.settles_succeeds _

end Settles

theorem apply_settles (m : Maps) (lim : Limits) (given : Option ℕ) (op : TableOp) :
    m.Settles given (m.apply lim given op) := by
  cases op with
  | registerPeer addr id hint =>
    apply settles_ite (m.settles_fails _)
    apply settles_ite (m.settles_fails _)
    apply settles_ite (m.settles_fails _)
    apply settles_ite (m.settles_fails _)
    cases given with
    | none => exact m.settles_fails _
    | some slot => exact ⟨Or.inl rfl, fun _ hslot => hslot⟩
  | bindId slot id =>
    apply settles_ite (m.settles_fails _)
    apply settles_ite (m.settles_fails _)
    exact settles_ite (m.settles_fails _) (m.settles_succeeds _)
  | updateAddress slot newAddr =>
    apply settles_ite (m.settles_fails _)
    cases m.addrOf slot with
    | none => exact m.settles_fails _
    | some addr =>
      apply settles_ite (m.settles_succeeds _)
      exact settles_ite (m.settles_fails _) (m.settles_succeeds _)
  | bindTag slot tag =>
    apply settles_ite (m.settles_fails _)
    apply settles_ite (m.settles_fails _)
    apply settles_ite (m.settles_fails _)
    exact settles_ite (m.settles_fails _) (m.settles_succeeds _)
  | unbindTag slot tag =>
    apply settles_ite (m.settles_fails _)
    exact settles_ite (m.settles_fails _) (m.settles_succeeds _)
  | unbindTags slot => exact m.settles_succeeds _
  | removePeer addr => exact m.settles_remove _
  | removePeerById id => exact m.settles_remove _
  | markEmitting slot => exact m.settles_succeeds _
  | clearEmitting slot => exact settles_ite (m.settles_succeeds _) (m.settles_succeeds _)

end Maps

/-! ## Seats

The records of the peers and the pool behind the maps: whoever is registered has a record
with that address, and the slots out of the pool are those somebody is registered in and
those that wait for an event to be read. -/

structure Seats (peers : ℕ → PeerRecord) (pool : SlotPool) (m : Maps) : Prop where
  addr : ∀ a slot, m.byAddr.lookup a = some slot →
    (peers slot).addr = a ∧ (peers slot).freeWhenRead = false
  id : ∀ i slot, m.byId.lookup i = some slot ↔
    m.Live slot ∧ (peers slot).hasId = true ∧ (peers slot).id = i
  pool : pool.Tracks {slot | m.Live slot ∨ (peers slot).freeWhenRead = true}

namespace Seats
variable {peers : ℕ → PeerRecord} {pool : SlotPool} {m : Maps} {slot : ℕ}

section Facts
variable (h : Seats peers pool m)
include h

theorem lookup_of_live (hlive : m.Live slot) : m.byAddr.lookup (peers slot).addr = some slot := by
  obtain ⟨a, ha⟩ := hlive
  rw [(h.addr a slot ha).1]
  exact ha

theorem addrOf_of_live (hlive : m.Live slot) : m.addrOf slot = some (peers slot).addr := by
  rw [Maps.addrOf, dif_pos hlive, (h.addr _ slot hlive.choose_spec).1]

theorem idOf_of_live (hlive : m.Live slot) :
    m.idOf slot = if (peers slot).hasId then some (peers slot).id else none := by
  by_cases hbound : ∃ i, m.byId.lookup i = some slot
  · obtain ⟨-, hhas, hid⟩ := (h.id _ slot).mp hbound.choose_spec
    rw [Maps.idOf, dif_pos hbound, if_pos hhas, hid]
  · rw [Maps.idOf, dif_neg hbound, if_neg]
    intro hhas
    exact hbound ⟨_, (h.id _ slot).mpr ⟨hlive, hhas, rfl⟩⟩

theorem card_byId_le : m.byId.entries.card ≤ m.byAddr.entries.card := by
  have hkeys : m.byId.keys.card ≤ m.byAddr.keys.card := by
    apply Finset.card_le_card_of_injOn fun i => (peers ((m.byId.lookup i).getD 0)).addr
    · intro i hi
      obtain ⟨slot, hslot⟩ := Finmap.mem_iff.mp (Finmap.mem_keys.mp hi)
      dsimp only
      rw [hslot, Option.getD_some]
      apply Finmap.mem_keys.mpr
      apply Finmap.mem_iff.mpr
      exact ⟨slot, h.lookup_of_live ((h.id i slot).mp hslot).1⟩
    · intro i hi j hj heq
      obtain ⟨slot, hslot⟩ := Finmap.mem_iff.mp (Finmap.mem_keys.mp hi)
      obtain ⟨slot', hslot'⟩ := Finmap.mem_iff.mp (Finmap.mem_keys.mp hj)
      dsimp only at heq
      rw [hslot, hslot', Option.getD_some, Option.getD_some] at heq
      obtain ⟨hlive, -, hid⟩ := (h.id i slot).mp hslot
      obtain ⟨hlive', -, hid'⟩ := (h.id j slot').mp hslot'
      have hsame := h.lookup_of_live hlive
      rw [heq, h.lookup_of_live hlive', Option.some.injEq] at hsame
      rw [← hid, ← hid', hsame]
  simpa [Finmap.keys, Multiset.keys] using hkeys

variable {other : ℕ}

theorem live_drop (hlive : m.Live slot) :
    (m.drop slot).Live other ↔ m.Live other ∧ other ≠ slot := by
  rw [Maps.Live, Maps.drop, h.addrOf_of_live hlive]
  simp only [Option.elim_some, lookup_erase_iff]
  constructor
  · rintro ⟨a, hne, ha⟩
    refine ⟨⟨a, ha⟩, ?_⟩
    rintro rfl
    exact hne (h.addr a _ ha).1.symm
  · rintro ⟨⟨a, ha⟩, hne⟩
    refine ⟨a, ?_, ha⟩
    rintro rfl
    rw [h.lookup_of_live hlive, Option.some.injEq] at ha
    exact hne ha.symm

theorem lookup_drop (hlive : m.Live slot) {a : Address}
    (ha : (m.drop slot).byAddr.lookup a = some other) : m.byAddr.lookup a = some other := by
  rw [Maps.drop, h.addrOf_of_live hlive, Option.elim_some, lookup_erase_iff] at ha
  exact ha.2

theorem lookupId_drop (hlive : m.Live slot) {i : BcpId} :
    (m.drop slot).byId.lookup i = some other ↔ m.byId.lookup i = some other ∧ other ≠ slot := by
  rw [Maps.drop, h.idOf_of_live hlive]
  by_cases hhas : (peers slot).hasId = true
  · rw [if_pos hhas, Option.elim_some, lookup_erase_iff, and_comm]
    refine and_congr_right fun hi => not_congr ⟨?_, ?_⟩
    · rintro rfl
      rw [(h.id _ slot).mpr ⟨hlive, hhas, rfl⟩, Option.some.injEq] at hi
      exact hi.symm
    · rintro rfl
      exact ((h.id i _).mp hi).2.2.symm
  · rw [if_neg hhas, Option.elim_none]
    refine ⟨fun hi => ⟨hi, ?_⟩, And.left⟩
    rintro rfl
    exact hhas ((h.id i _).mp hi).2.1

end Facts

/-! ### How the seats change -/

section Changes
variable (h : Seats peers pool m)
include h

variable {pool' : SlotPool}

/-- The seats after a change to the record of one slot, and to who is registered: a pool that
tracks the new leases, and what the record of the slot has to say for itself. -/
theorem change {m' : Maps} {p : PeerRecord}
    (haddr : ∀ a other, other ≠ slot → m'.byAddr.lookup a = some other →
      m.byAddr.lookup a = some other)
    (hlive : ∀ other, other ≠ slot → (m'.Live other ↔ m.Live other))
    (hid : ∀ i other, other ≠ slot → (m'.byId.lookup i = some other ↔ m.byId.lookup i = some other))
    (hown : ∀ a, m'.byAddr.lookup a = some slot → p.addr = a ∧ p.freeWhenRead = false)
    (hownId : ∀ i, m'.byId.lookup i = some slot ↔ m'.Live slot ∧ p.hasId = true ∧ p.id = i)
    (hpool : pool'.Tracks
      {other | (other ≠ slot ∧ (m.Live other ∨ (peers other).freeWhenRead = true)) ∨
        (other = slot ∧ (m'.Live slot ∨ p.freeWhenRead = true))}) :
    Seats (update peers slot p) pool' m' where
  addr a other ha := by
    by_cases hother : other = slot
    · rw [hother] at ha ⊢
      rw [update_self]
      exact hown a ha
    · rw [update_of_ne hother]
      exact h.addr a other (haddr a other hother ha)
  id i other := by
    by_cases hother : other = slot
    · rw [hother, update_self]
      exact hownId i
    · rw [update_of_ne hother, hid i other hother, h.id i other, hlive other hother]
  pool := by
    convert hpool using 1
    ext other
    by_cases hother : other = slot
    · rw [hother]
      simp
    · simp [hother, hlive other hother]

theorem frame (byTag : Multiset (PeerTag × ℕ)) (unread : Set ℕ) :
    Seats peers pool { m with byTag := byTag, unread := unread } :=
  ⟨h.addr, h.id, h.pool⟩

theorem register {addr : Address} {id : Option BcpId}
    (haddr : m.byAddr.lookup addr = none) (hid : ∀ i, id = some i → m.byId.lookup i = none)
    (hfree : ¬ (m.Live slot ∨ (peers slot).freeWhenRead = true))
    (hpool : pool'.Tracks (insert slot {slot | m.Live slot ∨ (peers slot).freeWhenRead = true})) :
    Seats (update peers slot (IndexedTable.bornWith addr id)) pool'
      (m.seat addr id (some slot)).2 := by
  have hborn : (m.seat addr id (some slot)).2.Live slot := ⟨addr, Finmap.lookup_insert _⟩
  have hnoid : ∀ i, m.byId.lookup i ≠ some slot := by
    intro i hi
    exact hfree (Or.inl ((h.id i slot).mp hi).1)
  apply h.change
  · intro a other hother ha
    exact (lookup_insert_new haddr hother).mp ha
  · intro other hother
    exact exists_congr fun a => lookup_insert_new haddr hother
  · intro i other hother
    cases id with
    | none => rfl
    | some i' => exact lookup_insert_new (hid i' rfl) hother
  · intro a ha
    rcases lookup_insert_iff.mp ha with ⟨rfl, -⟩ | ⟨-, ha'⟩
    · exact ⟨rfl, rfl⟩
    · exact absurd (Or.inl ⟨a, ha'⟩) hfree
  · intro i
    cases id with
    | none => simpa [Maps.seat, Maps.withId, IndexedTable.bornWith] using hnoid i
    | some i' =>
      simp only [Maps.seat, Maps.withId, IndexedTable.bornWith, lookup_insert_iff, hnoid] at hborn ⊢
      simp [hborn, eq_comm]
  · convert hpool using 1
    ext other
    by_cases hother : other = slot
    · simp [hother, hborn]
    · simp [hother]

theorem bindId {id : BcpId} (hlive : m.Live slot) (hnone : (peers slot).hasId = false)
    (hid : m.byId.lookup id = none) :
    Seats (update peers slot { peers slot with id := id, hasId := true }) pool
      { m with byId := m.byId.insert id slot } := by
  have hlive' : Maps.Live { m with byId := m.byId.insert id slot } slot := hlive
  apply h.change
  · intro a other _ ha
    exact ha
  · intro other _
    rfl
  · intro i other hother
    exact lookup_insert_new hid hother
  · intro a ha
    exact h.addr a slot ha
  · intro i
    rw [lookup_insert_iff, h.id]
    simp [hnone, hlive', eq_comm]
  · convert h.pool using 1
    ext other
    by_cases hother : other = slot
    · simp [hother, hlive, hlive']
    · simp [hother]

theorem move {addr : Address} (hlive : m.Live slot) (haddr : m.byAddr.lookup addr = none) :
    Seats (update peers slot { peers slot with addr := addr }) pool
      { m with byAddr := (m.byAddr.erase (peers slot).addr).insert addr slot } := by
  -- a lookup finds the new address of the peer, and every other peer where it was
  have hnew : (m.byAddr.erase (peers slot).addr).lookup addr = none := by
    rw [Option.eq_none_iff_forall_ne_some]
    intro other ha
    rw [lookup_erase_iff, haddr] at ha
    cases ha.2
  have hother : ∀ a other, other ≠ slot →
      (((m.byAddr.erase (peers slot).addr).insert addr slot).lookup a = some other ↔
        m.byAddr.lookup a = some other) := by
    intro a other hne
    rw [lookup_insert_new hnew hne, lookup_erase_iff]
    refine and_iff_right_of_imp fun ha heq => ?_
    rw [heq, h.lookup_of_live hlive, Option.some.injEq] at ha
    exact hne ha.symm
  have hlive' : Maps.Live
      { m with byAddr := (m.byAddr.erase (peers slot).addr).insert addr slot } slot :=
    ⟨addr, Finmap.lookup_insert _⟩
  apply h.change
  · intro a other hne ha
    exact (hother a other hne).mp ha
  · intro other hne
    exact exists_congr fun a => hother a other hne
  · intro i other _
    rfl
  · intro a ha
    rcases lookup_insert_iff.mp ha with ⟨rfl, -⟩ | ⟨-, ha'⟩
    · exact ⟨rfl, (h.addr _ slot (h.lookup_of_live hlive)).2⟩
    · obtain ⟨hne, hold⟩ := lookup_erase_iff.mp ha'
      exact absurd (h.addr a slot hold).1.symm hne
  · intro i
    rw [h.id i slot]
    simp [hlive, hlive']
  · convert h.pool using 1
    ext other
    by_cases hother : other = slot
    · simp [hother, hlive, hlive']
    · simp [hother]

section Drop
variable (hlive : m.Live slot)
include hlive

theorem drop {p : PeerRecord}
    (hpool : pool'.Tracks
      {other | (other ≠ slot ∧ (m.Live other ∨ (peers other).freeWhenRead = true)) ∨
        (other = slot ∧ p.freeWhenRead = true)}) :
    Seats (update peers slot p) pool' (m.drop slot) := by
  have hdead : ¬ (m.drop slot).Live slot := by
    intro hlive'
    exact ((h.live_drop hlive).mp hlive').2 rfl
  apply h.change
  · intro a other _ ha
    exact h.lookup_drop hlive ha
  · intro other hother
    rw [h.live_drop hlive]
    simp [hother]
  · intro i other hother
    rw [h.lookupId_drop hlive]
    simp [hother]
  · intro a ha
    exact absurd ⟨a, ha⟩ hdead
  · intro i
    rw [h.lookupId_drop hlive]
    simp [hdead]
  · simpa [hdead] using hpool

theorem drop_kept : Seats (update peers slot { peers slot with freeWhenRead := true }) pool
    (m.drop slot) := by
  apply h.drop hlive
  convert h.pool using 1
  ext other
  by_cases hother : other = slot
  · simp [hother, hlive]
  · simp [hother]

theorem drop_freed
    (hpool : pool'.Tracks
      ({other | m.Live other ∨ (peers other).freeWhenRead = true} \ {slot})) :
    Seats peers pool' (m.drop slot) := by
  have hkept : (peers slot).freeWhenRead = false := (h.addr _ slot (h.lookup_of_live hlive)).2
  rw [← update_eq_self slot peers]
  apply h.drop hlive
  convert hpool using 1
  ext other
  by_cases hother : other = slot
  · simp [hother, hkept]
  · simp [hother]

end Drop

theorem markEmitting (slot : ℕ) :
    Seats (update peers slot { peers slot with emitting := true }) pool m := by
  apply h.change
  · intro a other _ ha
    exact ha
  · intro other _
    rfl
  · intro i other _
    rfl
  · intro a ha
    exact h.addr a slot ha
  · intro i
    exact h.id i slot
  · convert h.pool using 1
    ext other
    by_cases hother : other = slot
    · simp [hother]
    · simp [hother]

theorem clearEmitting
    (hpool : pool'.Tracks {other | m.Live other ∨
      (other ≠ slot ∧ (peers other).freeWhenRead = true)}) :
    Seats (update peers slot { peers slot with emitting := false, freeWhenRead := false })
      pool' m := by
  apply h.change
  · intro a other _ ha
    exact ha
  · intro other _
    rfl
  · intro i other _
    rfl
  · intro a ha
    exact ⟨(h.addr a slot ha).1, rfl⟩
  · intro i
    exact h.id i slot
  · convert hpool using 1
    ext other
    by_cases hother : other = slot
    · simp [hother]
    · simp [hother]

end Changes

end Seats

/-! ## Events -/

/-- An event that waits to be read is noted, and a slot waits for nothing else. -/
structure Noted (peers : ℕ → PeerRecord) (unread : Set ℕ) : Prop where
  emitting : ∀ slot, (peers slot).emitting = true → slot ∈ unread
  waits : ∀ slot, (peers slot).freeWhenRead = true → (peers slot).emitting = true

theorem Noted.update {peers : ℕ → PeerRecord} {unread unread' : Set ℕ} (h : Noted peers unread)
    {slot : ℕ} {p : PeerRecord} (hrest : ∀ other, other ≠ slot → other ∈ unread → other ∈ unread')
    (hown : p.emitting = true → slot ∈ unread') (hwaits : p.freeWhenRead = true → p.emitting = true) :
    Noted (update peers slot p) unread' := by
  constructor <;> intro other
  · by_cases hother : other = slot
    · rw [hother, update_self]
      exact hown
    · rw [update_of_ne hother]
      exact fun hemit => hrest other hother (h.emitting other hemit)
  · by_cases hother : other = slot
    · rw [hother, update_self]
      exact hwaits
    · rw [update_of_ne hother]
      exact h.waits other

theorem Noted.live_or_unread {peers : ℕ → PeerRecord} {m : Maps} (h : Noted peers m.unread) {slot : ℕ}
    (hout : m.Live slot ∨ (peers slot).freeWhenRead = true) : m.Live slot ∨ slot ∈ m.unread :=
  hout.imp_right fun hwait => h.emitting slot (h.waits slot hwait)

end BcpFlux.Peer
