import BcpFlux.Peer.Maps

/-! # The indexes refine the maps

Each index holds its map, bucket by bucket, so every operation of the table is the operation
of the maps with the same reply, and every lookup reads them.
-/

namespace BcpFlux.Peer
open Library Library.RobinHood Library.HashIndex Pool Transfer Crypto

namespace IndexedTable

def limits (t : IndexedTable) : Limits := ⟨t.peerCapacity, t.tagCapacity, t.peerPool.capacity⟩

structure TagsHold (t : IndexedTable) (byTag : Multiset (PeerTag × ℕ)) : Prop where
  ordered : Ordered t.tagIdxCapacity (TagEntry.home t.tagIdxCapacity) t.tagIdx
  contents : contents t.tagIdxCapacity t.tagIdx = byTag.map TagEntry.of
  count : t.tagCount = byTag.card
  named : ∀ x ∈ byTag, hashTag x.1 ≠ 0
  fit : byTag.card ≤ t.tagCapacity
  room : t.tagCapacity < t.tagIdxCapacity

structure Refines (addrHash : Address → ℕ) (t : IndexedTable) (m : Maps) : Prop where
  addr : Holds t.idxCapacity (hashAddr addrHash) t.addrIdx m.byAddr
  id : Holds t.idxCapacity hashId t.bcpIdx m.byId
  tags : t.TagsHold m.byTag
  seats : Seats t.peers t.peerPool m
  noted : Noted t.peers m.unread
  count : t.peerCount = m.byAddr.entries.card
  fit : m.byAddr.entries.card ≤ t.peerCapacity
  room : t.peerCapacity < t.idxCapacity

/-- A call answers as the maps do, and leaves a table that stands for theirs. -/
def Answers (addrHash : Address → ℕ) (t : IndexedTable) (r : Option (Reply × IndexedTable))
    (a : Reply × Maps) : Prop :=
  ∃ t', r = some (a.1, t') ∧ t'.Refines addrHash a.2 ∧ t'.limits = t.limits

namespace TagsHold
variable {t : IndexedTable} {byTag : Multiset (PeerTag × ℕ)} (h : t.TagsHold byTag)
include h

theorem card_contents : (RobinHood.contents t.tagIdxCapacity t.tagIdx).card = byTag.card := by
  rw [h.contents, Multiset.card_map]

theorem card_lt : (RobinHood.contents t.tagIdxCapacity t.tagIdx).card < t.tagIdxCapacity := by
  have hfit := h.fit
  have hroom := h.room
  rw [h.card_contents]
  omega

theorem home_lt (e : TagEntry) : e.home t.tagIdxCapacity < t.tagIdxCapacity := by
  have hroom := h.room
  exact Nat.mod_lt _ (by omega)

theorem mem_contents_iff {tag : PeerTag} {slot : ℕ} :
    ⟨hashTag tag, slot⟩ ∈ RobinHood.contents t.tagIdxCapacity t.tagIdx ↔ (tag, slot) ∈ byTag := by
  rw [h.contents]
  exact Multiset.mem_map_of_injective TagEntry.of_injective (a := (tag, slot))

theorem findTagPos_cases (tag : PeerTag) (slot : ℕ) :
    ((tag, slot) ∉ byTag ∧ t.findTagPos (hashTag tag) slot = some none) ∨
      ((tag, slot) ∈ byTag ∧ ∃ p < t.tagIdxCapacity,
        t.findTagPos (hashTag tag) slot = some (some p) ∧
          t.tagIdx p = some (TagEntry.of (tag, slot))) := by
  have hhit : ∀ e : TagEntry, decide (e.hash = hashTag tag ∧ e.idx = slot) = true →
      e.home t.tagIdxCapacity = hashTag tag % t.tagIdxCapacity := by
    intro e he
    rw [TagEntry.home, (of_decide_eq_true he).1]
  rcases h.ordered.probe h.home_lt h.card_lt (Nat.mod_lt _ (by have := h.room; omega)) hhit with
    ⟨hrun, hnone⟩ | ⟨p, hp, e, hrun, hcell, hfound⟩
  · left
    refine ⟨?_, hrun⟩
    intro hmem
    have hfalse := hnone _ (h.mem_contents_iff.mpr hmem)
    simp at hfalse
  · right
    obtain ⟨hash', idx'⟩ := e
    have hsame : hash' = hashTag tag ∧ idx' = slot := of_decide_eq_true hfound
    rw [hsame.1, hsame.2] at hcell
    exact ⟨h.mem_contents_iff.mp (mem_contents.mpr ⟨p, hp, hcell⟩), p, hp, hrun, hcell⟩

open Classical in
theorem collect_holders (tag : PeerTag) :
    (((collect t.tagIdxCapacity (TagEntry.home t.tagIdxCapacity) (fun e => e.hash = hashTag tag)
      t.tagIdx t.tagIdxCapacity 0 (hashTag tag % t.tagIdxCapacity)).map TagEntry.idx : List ℕ) :
        Multiset ℕ) = (byTag.filter fun x : PeerTag × ℕ => x.1 = tag).map Prod.snd := by
  have hhit : ∀ e : TagEntry, decide (e.hash = hashTag tag) = true →
      e.home t.tagIdxCapacity = hashTag tag % t.tagIdxCapacity := by
    intro e he
    rw [TagEntry.home, of_decide_eq_true he]
  have hcollect := collect_contents h.ordered h.home_lt
    (Nat.mod_lt _ (by have := h.room; omega)) hhit
  have hsame : ∀ x ∈ byTag, decide ((TagEntry.of x).hash = hashTag tag) = true ↔ x.1 = tag := by
    intro x _
    rw [decide_eq_true_iff]
    constructor
    · exact hashTag_inj
    · rintro rfl
      rfl
  rw [← Multiset.map_coe, hcollect, h.contents, Multiset.filter_map, Multiset.map_map]
  change Multiset.map Prod.snd (byTag.filter fun x => decide ((TagEntry.of x).hash = hashTag tag) = true) = _
  rw [Multiset.filter_congr hsame]

theorem frame (addrIdx : ℕ → Option (Entry Address ℕ)) (bcpIdx : ℕ → Option (Entry BcpId ℕ))
    (peerCount : ℕ) (pool : SlotPool) (peers : ℕ → PeerRecord) :
    { t with
      addrIdx := addrIdx
      bcpIdx := bcpIdx
      peerCount := peerCount
      peerPool := pool
      peers := peers }.TagsHold byTag :=
  ⟨h.ordered, h.contents, h.count, h.named, h.fit, h.room⟩

theorem insert {tag : PeerTag} (htag : hashTag tag ≠ 0) (slot : ℕ)
    (hroom : byTag.card < t.tagCapacity) :
    ∃ tagIdx, t.insertTagEntry (hashTag tag) slot = some tagIdx ∧
      { t with tagIdx := tagIdx, tagCount := t.tagCount + 1 }.TagsHold ((tag, slot) ::ₘ byTag) := by
  obtain ⟨tagIdx, hrun, hordered, hcontents⟩ :=
    h.ordered.insert h.home_lt h.card_lt ⟨hashTag tag, slot⟩
  refine ⟨tagIdx, hrun, hordered, ?_, ?_, ?_, ?_, h.room⟩
  · rw [Multiset.map_cons]
    exact hcontents.trans (congrArg _ h.contents)
  · rw [Multiset.card_cons, ← h.count]
  · intro x hx
    rcases Multiset.mem_cons.mp hx with rfl | hold
    · exact htag
    · exact h.named x hold
  · rw [Multiset.card_cons]
    exact hroom

open Classical in
theorem remove {tag : PeerTag} {slot p : ℕ} (hp : p < t.tagIdxCapacity)
    (hcell : t.tagIdx p = some (TagEntry.of (tag, slot))) (hmem : (tag, slot) ∈ byTag) :
    ∃ tagIdx, t.removeTagEntryAt p = some tagIdx ∧
      { t with tagIdx := tagIdx, tagCount := t.tagCount - 1 }.TagsHold
        (byTag.erase (tag, slot)) := by
  obtain ⟨tagIdx, hrun, hordered, hcontents, -⟩ := h.ordered.remove h.home_lt h.card_lt hp hcell
  have hcard := Multiset.card_erase_of_mem hmem
  have hfit := h.fit
  refine ⟨tagIdx, hrun, hordered, ?_, ?_, ?_, ?_, h.room⟩
  · rw [h.contents, ← Multiset.cons_erase hmem, Multiset.map_cons] at hcontents
    exact ((Multiset.cons_inj_right _).mp hcontents).symm
  · rw [hcard, ← h.count]
    rfl
  · intro x hx
    exact h.named x (Multiset.mem_of_mem_erase hx)
  · rw [hcard]
    exact (Nat.pred_le _).trans hfit

open Classical in
theorem clear (slot : ℕ) :
    ∃ t', t.clearTagsLocked slot = some t' ∧
      t'.TagsHold (byTag.filter fun x : PeerTag × ℕ => x.2 ≠ slot) ∧
      ∃ tagIdx count, t' = { t with tagIdx := tagIdx, tagCount := count } := by
  obtain ⟨tagIdx, n, hrun, hordered, hcontents, hcard⟩ :=
    h.ordered.clear h.home_lt h.card_lt fun e => e.idx = slot
  have hfilter : RobinHood.contents t.tagIdxCapacity tagIdx =
      (byTag.filter fun x : PeerTag × ℕ => x.2 ≠ slot).map TagEntry.of := by
    have hsame : ∀ x ∈ byTag, decide ((TagEntry.of x).idx = slot) = false ↔ x.2 ≠ slot := by
      intro x _
      rw [decide_eq_false_iff_not]
      rfl
    rw [hcontents, h.contents, Multiset.filter_map]
    change Multiset.map _ (byTag.filter fun x => decide ((TagEntry.of x).idx = slot) = false) = _
    rw [Multiset.filter_congr hsame]
  have hcount := h.count
  rw [hfilter, h.card_contents, Multiset.card_map] at hcard
  refine ⟨{ t with tagIdx := tagIdx, tagCount := t.tagCount - n }, ?_, ⟨hordered, hfilter, ?_, ?_, ?_,
    h.room⟩, _, _, rfl⟩
  · rw [IndexedTable.clearTagsLocked, hrun, Option.map_some]
  · show t.tagCount - n = _
    omega
  · intro x hx
    exact h.named x (Multiset.mem_of_mem_filter hx)
  · exact (Multiset.card_le_card (Multiset.filter_le _ _)).trans h.fit

end TagsHold

/-! ### Operations -/

section Answers
variable {addrHash : Address → ℕ} {t : IndexedTable}

theorem Answers.ite {c c' : Prop} [Decidable c] [Decidable c'] (hc : c ↔ c')
    {r r' : Option (Reply × IndexedTable)} {a a' : Reply × Maps}
    (hpos : c → Answers addrHash t r a) (hneg : ¬ c → Answers addrHash t r' a') :
    Answers addrHash t (if c then r else r') (if c' then a else a') := by
  by_cases h : c
  · rw [if_pos h, if_pos (hc.mp h)]
    exact hpos h
  · rw [if_neg h, if_neg (fun h' => h (hc.mpr h'))]
    exact hneg h

end Answers

namespace Refines
variable {addrHash : Address → ℕ} {t : IndexedTable} {m : Maps} (h : t.Refines addrHash m)
include h

theorem unchanged (code : Error) : Answers addrHash t (some (⟨code, none⟩, t)) (m.fails code) :=
  ⟨t, rfl, h, rfl⟩

theorem addr_room : m.byAddr.entries.card < t.idxCapacity := lt_of_le_of_lt h.fit h.room

theorem id_room : m.byId.entries.card < t.idxCapacity := h.seats.card_byId_le.trans_lt h.addr_room

theorem findAddr_cases (addr : Address) :
    (m.byAddr.lookup addr = none ∧ t.findAddr addrHash addr = some none) ∨
      ∃ p < t.idxCapacity, ∃ slot, m.byAddr.lookup addr = some slot ∧
        t.findAddr addrHash addr = some (some p) ∧
        t.addrIdx p = some ⟨hashAddr addrHash addr, addr, slot⟩ :=
  h.addr.findPos_cases h.addr_room addr

theorem findId_cases (id : BcpId) :
    (m.byId.lookup id = none ∧ t.findId id = some none) ∨
      ∃ p < t.idxCapacity, ∃ slot, m.byId.lookup id = some slot ∧
        t.findId id = some (some p) ∧ t.bcpIdx p = some ⟨hashId id, id, slot⟩ :=
  h.id.findPos_cases h.id_room id

section
variable (slot : ℕ)

/-- The address of its record leads back to a slot exactly if somebody is registered there. -/
theorem mapsBack_cases :
    (¬ m.Live slot ∧ ∃ apos, t.findAddr addrHash (t.peers slot).addr = some apos ∧
      t.mapsBack slot apos = false) ∨
      (m.Live slot ∧ ∃ p < t.idxCapacity, t.findAddr addrHash (t.peers slot).addr = some (some p) ∧
        t.mapsBack slot (some p) = true ∧
        t.addrIdx p = some ⟨hashAddr addrHash (t.peers slot).addr, (t.peers slot).addr, slot⟩) := by
  rcases h.findAddr_cases (t.peers slot).addr with ⟨hnone, hfind⟩ | ⟨p, hp, slot', hlook, hfind, hcell⟩
  · left
    refine ⟨?_, none, hfind, rfl⟩
    intro hlive
    rw [h.seats.lookup_of_live hlive] at hnone
    cases hnone
  · have hback : slotAt t.addrIdx p = slot' := by
      rw [slotAt, hcell]
      rfl
    by_cases hsame : slot' = slot
    · right
      rw [hsame] at hlook hcell hback
      exact ⟨⟨_, hlook⟩, p, hp, hfind, by rw [mapsBack, hback, decide_eq_true rfl], hcell⟩
    · left
      refine ⟨?_, some p, hfind, by rw [mapsBack, hback, decide_eq_false hsame]⟩
      intro hlive
      rw [h.seats.lookup_of_live hlive, Option.some.injEq] at hlook
      exact hsame hlook.symm

theorem bindTag (tag : PeerTag) :
    Answers addrHash t (t.bindTag addrHash slot tag) (m.bindTag t.limits slot tag) := by
  rw [IndexedTable.bindTag, Maps.bindTag]
  apply Answers.ite Iff.rfl fun _ => h.unchanged _
  intro _
  apply Answers.ite Iff.rfl fun _ => h.unchanged _
  intro htag
  apply Answers.ite (by rw [h.tags.count]; rfl) fun _ => h.unchanged _
  intro hroom
  rcases h.mapsBack_cases slot with ⟨hdead, apos, hfind, hback⟩ | ⟨hlive, p, hp, hfind, hback, hcell⟩
  · simp only [hfind, Option.bind_eq_bind, Option.bind_some, hback, if_true, hdead, not_false_eq_true]
    exact h.unchanged _
  · simp only [hfind, Option.bind_eq_bind, Option.bind_some, hback, hlive, not_true_eq_false,
      if_false, Bool.true_eq_false]
    rw [h.tags.count] at hroom
    obtain ⟨tagIdx, hrun, htags⟩ := h.tags.insert htag slot (by omega)
    refine ⟨{ t with tagIdx := tagIdx, tagCount := t.tagCount + 1 }, ?_, ?_, rfl⟩
    · rw [hrun]
      rfl
    · exact ⟨h.addr, h.id, htags, h.seats.frame _ _, h.noted, h.count, h.fit, h.room⟩

theorem unbindTag (tag : PeerTag) :
    Answers addrHash t (t.unbindTag slot tag) (m.unbindTag slot tag) := by
  rw [IndexedTable.unbindTag, Maps.unbindTag]
  apply Answers.ite Iff.rfl fun _ => h.unchanged _
  intro _
  rcases h.tags.findTagPos_cases tag slot with ⟨hnot, hfind⟩ | ⟨hmem, p, hp, hfind, hcell⟩
  · rw [hfind, if_pos hnot]
    exact h.unchanged _
  · rw [hfind, if_neg (not_not_intro hmem)]
    obtain ⟨tagIdx, hrun, htags⟩ := h.tags.remove hp hcell hmem
    refine ⟨{ t with tagIdx := tagIdx, tagCount := t.tagCount - 1 }, ?_, ?_, rfl⟩
    · simp only [Option.bind_eq_bind, Option.bind_some, hrun]
      rfl
    · exact ⟨h.addr, h.id, htags, h.seats.frame _ _, h.noted, h.count, h.fit, h.room⟩

theorem unbindTags : Answers addrHash t (t.unbindTags slot) (m.unbindTags slot) := by
  obtain ⟨t', hrun, htags, tagIdx, count, rfl⟩ := h.tags.clear slot
  refine ⟨{ t with tagIdx := tagIdx, tagCount := count }, ?_, ?_, rfl⟩
  · rw [IndexedTable.unbindTags, hrun]
    rfl
  · exact ⟨h.addr, h.id, htags, h.seats.frame _ _, h.noted, h.count, h.fit, h.room⟩

theorem bindId (id : BcpId) :
    Answers addrHash t (t.bindId addrHash slot id) (m.bindId t.limits slot id) := by
  rw [IndexedTable.bindId, Maps.bindId]
  apply Answers.ite Iff.rfl fun _ => h.unchanged _
  intro _
  rcases h.mapsBack_cases slot with ⟨hdead, apos, hfind, hback⟩ | ⟨hlive, p, hp, hfind, hback, hcell⟩
  · simp only [hfind, Option.bind_eq_bind, Option.bind_some, hback, if_true, hdead, not_false_eq_true]
    exact h.unchanged _
  simp only [hfind, Option.bind_eq_bind, Option.bind_some, hback, hlive, not_true_eq_false,
    if_false, Bool.true_eq_false]
  have hown : (∃ i, m.byId.lookup i = some slot) ↔ (t.peers slot).hasId = true := by
    constructor
    · rintro ⟨i, hi⟩
      exact ((h.seats.id i slot).mp hi).2.1
    · intro hhas
      exact ⟨_, (h.seats.id _ slot).mpr ⟨hlive, hhas, rfl⟩⟩
  by_cases hhas : (t.peers slot).hasId = true
  · rw [if_pos hhas, if_pos (Or.inl (hown.mpr hhas))]
    exact h.unchanged _
  rw [if_neg hhas]
  rcases h.findId_cases id with ⟨hnone, hmiss⟩ | ⟨q, hq, slot', hlook, hhit, -⟩
  · rw [if_neg (by
      rintro (hbound | hmem)
      · exact hhas (hown.mp hbound)
      · exact Finmap.lookup_eq_none.mp hnone hmem)]
    obtain ⟨bcpIdx, hrun, hid⟩ := h.id.insertEntry_holds h.id_room hnone slot
    refine ⟨{ t with
      bcpIdx := bcpIdx
      peers := Function.update t.peers slot { t.peers slot with id := id, hasId := true } },
      ?_, ?_, rfl⟩
    · simp only [hmiss, Option.bind_some, Option.isSome_none, Bool.false_eq_true, if_false, hrun]
      rfl
    · rw [Bool.not_eq_true] at hhas
      exact ⟨h.addr, hid, h.tags.frame _ _ _ _ _, h.seats.bindId hlive hhas hnone,
        h.noted.update (fun _ _ hmem => hmem) (h.noted.emitting slot) (h.noted.waits slot), h.count,
        h.fit, h.room⟩
  · rw [if_pos (Or.inr (Finmap.mem_of_lookup_eq_some hlook))]
    simp only [hhit, Option.bind_some, Option.isSome_some, if_true]
    exact h.unchanged _

theorem updateAddress (newAddr : Address) :
    Answers addrHash t (t.updateAddress addrHash slot newAddr)
      (m.updateAddress t.limits slot newAddr) := by
  rw [IndexedTable.updateAddress, Maps.updateAddress]
  apply Answers.ite Iff.rfl fun _ => h.unchanged _
  intro _
  rcases h.mapsBack_cases slot with ⟨hdead, apos, hfind, hback⟩ | ⟨hlive, p, hp, hfind, hback, hcell⟩
  · have hnone : m.addrOf slot = none := by rw [Maps.addrOf, dif_neg hdead]
    simp only [hfind, Option.bind_eq_bind, Option.bind_some, hback, if_true, hnone]
    exact h.unchanged _
  simp only [hfind, Option.bind_eq_bind, Option.bind_some, hback, h.seats.addrOf_of_live hlive,
    if_false, Bool.true_eq_false]
  apply Answers.ite Iff.rfl
  · intro _
    exact ⟨t, rfl, h, rfl⟩
  intro _
  rcases h.findAddr_cases newAddr with ⟨hnone, hmiss⟩ | ⟨q, hq, slot', hlook, hhit, -⟩
  · rw [if_neg (Finmap.lookup_eq_none.mp hnone)]
    obtain ⟨without, hremove, hwithout⟩ := h.addr.removeEntryAt_holds h.addr_room hp hcell
    have hentries := entries_eq_cons_erase (h.seats.lookup_of_live hlive)
    have hcard := congrArg Multiset.card hentries
    rw [Multiset.card_cons] at hcard
    have hnone' : (m.byAddr.erase (t.peers slot).addr).lookup newAddr = none := by
      rw [Finmap.lookup_eq_none, Finmap.mem_erase]
      rintro ⟨-, hmem⟩
      exact Finmap.lookup_eq_none.mp hnone hmem
    obtain ⟨addrIdx, hinsert, haddr⟩ := hwithout.insertEntry_holds
      (by have := h.addr_room; dsimp only; omega) hnone' slot
    have hcard' : ((m.byAddr.erase (t.peers slot).addr).insert newAddr slot).entries.card =
        m.byAddr.entries.card := by
      rw [Finmap.entries_insert_of_notMem (Finmap.lookup_eq_none.mp hnone'), Multiset.card_cons,
        hcard]
    refine ⟨{ t with
      addrIdx := addrIdx
      peers := Function.update t.peers slot { t.peers slot with addr := newAddr } }, ?_, ?_, rfl⟩
    · simp only [hmiss, Option.bind_some, Option.isSome_none, Bool.false_eq_true, if_false, removeAt,
        hremove, hinsert]
      rfl
    · refine ⟨haddr, h.id, h.tags.frame _ _ _ _ _, h.seats.move hlive hnone,
        h.noted.update (fun _ _ hmem => hmem) (h.noted.emitting slot) (h.noted.waits slot), ?_, ?_,
        h.room⟩
      · exact h.count.trans hcard'.symm
      · exact hcard'.trans_le h.fit
  · rw [if_pos (Finmap.mem_of_lookup_eq_some hlook)]
    simp only [hhit, Option.bind_some, Option.isSome_some, if_true]
    exact h.unchanged _

end

theorem findGivenId_cases (id : Option BcpId) :
    ((∀ i, id = some i → m.byId.lookup i = none) ∧ t.findGivenId id = some none) ∨
      ((∃ i, id = some i ∧ i ∈ m.byId) ∧ ∃ p, t.findGivenId id = some (some p)) := by
  cases id with
  | none => exact Or.inl ⟨nofun, rfl⟩
  | some i =>
    rcases h.findId_cases i with ⟨hnone, hfind⟩ | ⟨p, -, slot, hlook, hfind, -⟩
    · left
      refine ⟨?_, hfind⟩
      rintro i' ⟨rfl⟩
      exact hnone
    · exact Or.inr ⟨⟨i, rfl, Finmap.mem_of_lookup_eq_some hlook⟩, p, hfind⟩

theorem insertGivenId {id : Option BcpId} (hid : ∀ i, id = some i → m.byId.lookup i = none)
    (slot : ℕ) : ∃ bcpIdx, t.insertGivenId slot id = some bcpIdx ∧
      Holds t.idxCapacity hashId bcpIdx (m.withId slot id) := by
  cases id with
  | none => exact ⟨t.bcpIdx, rfl, h.id⟩
  | some i => exact h.id.insertEntry_holds h.id_room (hid i rfl) slot

theorem registerPeer_of_seat {addr : Address} {id : Option BcpId} {hint : ℕ} {given : Option ℕ}
    (hseat : m.byAddr.entries.card < t.peerCapacity → m.byAddr.lookup addr = none →
      (∀ i, id = some i → m.byId.lookup i = none) →
      Answers addrHash t (t.seat addrHash addr id (t.peerPool.acquire hint)) (m.seat addr id given)) :
    Answers addrHash t (t.registerPeer addrHash addr id hint)
      (m.registerPeer t.limits addr id given) := by
  rw [IndexedTable.registerPeer, Maps.registerPeer]
  apply Answers.ite Iff.rfl fun _ => h.unchanged _
  intro _
  apply Answers.ite (by rw [h.count]; rfl) fun _ => h.unchanged _
  intro hroom
  rw [h.count] at hroom
  rcases h.findAddr_cases addr with ⟨hnone, hfind⟩ | ⟨p, -, slot, hlook, hfind, -⟩
  · rw [if_neg (Finmap.lookup_eq_none.mp hnone)]
    simp only [hfind, Option.bind_eq_bind, Option.bind_some, Option.isSome_none,
      Bool.false_eq_true, if_false]
    rcases h.findGivenId_cases id with ⟨hid, hmiss⟩ | ⟨hid, q, hhit⟩
    · simp only [hmiss, Option.bind_some, Option.isSome_none, Bool.false_eq_true, if_false]
      rw [if_neg]
      · exact hseat (by omega) hnone hid
      · rintro ⟨i, hi, hmem⟩
        exact Finmap.lookup_eq_none.mp (hid i hi) hmem
    · simp only [hhit, Option.bind_some, Option.isSome_some, if_true]
      rw [if_pos hid]
      exact h.unchanged _
  · rw [if_pos (Finmap.mem_of_lookup_eq_some hlook)]
    simp only [hfind, Option.bind_eq_bind, Option.bind_some, Option.isSome_some, if_true]
    exact h.unchanged _

theorem registerPeer (addr : Address) (id : Option BcpId) (hint : ℕ) :
    ∃ given, m.Gives t.limits given ∧
      Answers addrHash t (t.registerPeer addrHash addr id hint)
        (m.registerPeer t.limits addr id given) := by
  rcases h.seats.pool.acquire_cases hint with
    ⟨hpool, hfull⟩ | ⟨slot, pool, hpool, hcap, hlt, hfree, htracks⟩
  · refine ⟨none, fun slot hslot => h.noted.live_or_unread (hfull slot hslot),
      h.registerPeer_of_seat ?_⟩
    intro _ _ _
    rw [hpool]
    exact h.unchanged _
  · refine ⟨some slot, ⟨hlt, fun hlive => hfree (Or.inl hlive)⟩, h.registerPeer_of_seat ?_⟩
    intro hroom haddr hid
    obtain ⟨addrIdx, hinsert, haddrs⟩ := h.addr.insertEntry_holds h.addr_room haddr slot
    obtain ⟨bcpIdx, hinsert', hids⟩ := h.insertGivenId hid slot
    have hcard : (m.byAddr.insert addr slot).entries.card = m.byAddr.entries.card + 1 := by
      rw [Finmap.entries_insert_of_notMem (Finmap.lookup_eq_none.mp haddr), Multiset.card_cons]
    refine ⟨{ t with
      addrIdx := addrIdx
      bcpIdx := bcpIdx
      peerCount := t.peerCount + 1
      peerPool := pool
      peers := Function.update t.peers slot (bornWith addr id) }, ?_, ?_, ?_⟩
    · rw [hpool, IndexedTable.seat, hinsert, hinsert']
      rfl
    · refine ⟨haddrs, hids, h.tags.frame _ _ _ _ _, h.seats.register haddr hid hfree htracks,
        h.noted.update (fun _ hother hmem => ⟨hmem, hother⟩) Bool.noConfusion Bool.noConfusion, ?_, ?_,
        h.room⟩
      · exact (congrArg (· + 1) h.count).trans hcard.symm
      · exact hcard.trans_le hroom
    · rw [limits, limits, hcap]

/-! ### Removal -/

section Remove
variable {slot p : ℕ} (hlive : m.Live slot)
include hlive

theorem card_drop : (m.drop slot).byAddr.entries.card + 1 = m.byAddr.entries.card := by
  rw [Maps.drop, h.seats.addrOf_of_live hlive, Option.elim_some,
    entries_eq_cons_erase (h.seats.lookup_of_live hlive), Multiset.card_cons]

theorem findOwnId : ∃ bpos bcpIdx, t.findOwnId (t.peers slot) = some bpos ∧
    removeAt t.idxCapacity t.bcpIdx bpos = some bcpIdx ∧
    Holds t.idxCapacity hashId bcpIdx (m.drop slot).byId := by
  rw [IndexedTable.findOwnId, Maps.drop, h.seats.idOf_of_live hlive]
  by_cases hhas : (t.peers slot).hasId = true
  · rw [if_pos hhas, if_pos hhas]
    have hown := (h.seats.id _ slot).mpr ⟨hlive, hhas, rfl⟩
    rcases h.findId_cases (t.peers slot).id with ⟨hnone, -⟩ | ⟨q, hq, slot', hlook, hfind, hcell⟩
    · rw [hown] at hnone
      cases hnone
    · obtain ⟨bcpIdx, hremove, hholds⟩ := h.id.removeEntryAt_holds h.id_room hq hcell
      exact ⟨some q, bcpIdx, hfind, hremove, hholds⟩
  · rw [if_neg hhas, if_neg hhas]
    exact ⟨none, t.bcpIdx, rfl, rfl, h.id⟩

/-- With the positions of both keys a peer goes out of all three indexes. -/
theorem takeOut {apos bpos : Option ℕ} {addrIdx : ℕ → Option (Entry Address ℕ)}
    {bcpIdx : ℕ → Option (Entry BcpId ℕ)}
    (haddr : removeAt t.idxCapacity t.addrIdx apos = some addrIdx)
    (haddrs : Holds t.idxCapacity (hashAddr addrHash) addrIdx (m.drop slot).byAddr)
    (hid : removeAt t.idxCapacity t.bcpIdx bpos = some bcpIdx)
    (hids : Holds t.idxCapacity hashId bcpIdx (m.drop slot).byId) :
    Answers addrHash t (t.takeOut apos bpos slot) (m.drop slot).succeeds := by
  have hcard := h.card_drop hlive
  have hcount := h.count
  have hfit := h.fit
  obtain ⟨t', hclear, htags, tagIdx, count, rfl⟩ :=
    (h.tags.frame addrIdx bcpIdx t.peerCount t.peerPool t.peers).clear slot
  unfold IndexedTable.takeOut
  simp only [haddr, hid, Option.bind_eq_bind, Option.bind_some]
  rw [hclear, Option.bind_some]
  by_cases hemit : (t.peers slot).emitting = true
  · refine ⟨_, by rw [drainAndFree, if_pos hemit]; rfl, ⟨haddrs, hids, htags.frame _ _ _ _ _,
      h.seats.drop_kept hlive, h.noted.update (fun _ _ hmem => hmem) (h.noted.emitting slot)
        fun _ => hemit, ?_, ?_, h.room⟩, rfl⟩
    · show t.peerCount - 1 = (m.drop slot).byAddr.entries.card
      omega
    · show (m.drop slot).byAddr.entries.card ≤ t.peerCapacity
      omega
  · obtain ⟨pool, hrelease, hcap, htracks⟩ := h.seats.pool.release (Or.inl hlive)
    refine ⟨_, by rw [drainAndFree, if_neg hemit, hrelease]; rfl, ⟨haddrs, hids,
      htags.frame _ _ _ _ _, h.seats.drop_freed hlive htracks, h.noted, ?_, ?_, h.room⟩, ?_⟩
    · show t.peerCount - 1 = (m.drop slot).byAddr.entries.card
      omega
    · show (m.drop slot).byAddr.entries.card ≤ t.peerCapacity
      omega
    · rw [limits, limits, hcap]

end Remove

theorem removePeer (addr : Address) :
    Answers addrHash t (t.removePeer addrHash addr) (m.remove (m.byAddr.lookup addr)) := by
  rw [IndexedTable.removePeer]
  rcases h.findAddr_cases addr with ⟨hnone, hfind⟩ | ⟨p, hp, slot, hlook, hfind, hcell⟩
  · rw [hfind, hnone]
    exact h.unchanged _
  · rw [hfind, hlook]
    have hslot : slotAt t.addrIdx p = slot := by
      rw [slotAt, hcell]
      rfl
    have hlive : m.Live slot := ⟨addr, hlook⟩
    have hown := (h.seats.addr addr slot hlook).1
    obtain ⟨bpos, bcpIdx, hfind', hremove', hids⟩ := h.findOwnId hlive
    obtain ⟨addrIdx, hremove, haddrs⟩ := h.addr.removeEntryAt_holds h.addr_room hp hcell
    have hdrop : (m.drop slot).byAddr = m.byAddr.erase addr := by
      rw [Maps.drop, h.seats.addrOf_of_live hlive, hown, Option.elim_some]
    simp only [Option.bind_eq_bind, Option.bind_some, hslot, hfind']
    exact h.takeOut hlive hremove (by rw [hdrop]; exact haddrs) hremove' hids

theorem removePeerById (id : BcpId) :
    Answers addrHash t (t.removePeerById addrHash id) (m.remove (m.byId.lookup id)) := by
  rw [IndexedTable.removePeerById]
  rcases h.findId_cases id with ⟨hnone, hfind⟩ | ⟨p, hp, slot, hlook, hfind, hcell⟩
  · rw [hfind, hnone]
    exact h.unchanged _
  · rw [hfind, hlook]
    have hslot : slotAt t.bcpIdx p = slot := by
      rw [slotAt, hcell]
      rfl
    obtain ⟨hlive, hhas, hown⟩ := (h.seats.id id slot).mp hlook
    rcases h.mapsBack_cases slot with ⟨hdead, -⟩ | ⟨-, q, hq, hfind', -, hcell'⟩
    · exact absurd hlive hdead
    obtain ⟨addrIdx, hremove, haddrs⟩ := h.addr.removeEntryAt_holds h.addr_room hq hcell'
    obtain ⟨bcpIdx, hremove', hids⟩ := h.id.removeEntryAt_holds h.id_room hp hcell
    have hdrop : (m.drop slot).byAddr = m.byAddr.erase (t.peers slot).addr := by
      rw [Maps.drop, h.seats.addrOf_of_live hlive, Option.elim_some]
    have hdrop' : (m.drop slot).byId = m.byId.erase id := by
      rw [Maps.drop, h.seats.idOf_of_live hlive, if_pos hhas, hown, Option.elim_some]
    simp only [Option.bind_eq_bind, Option.bind_some, hslot, hfind']
    exact h.takeOut hlive hremove (by rw [hdrop]; exact haddrs) hremove'
      (by rw [hdrop']; exact hids)

/-! ### Events -/

theorem markEmitting (slot : ℕ) : (t.markEmitting slot).Refines addrHash
    { m with unread := insert slot m.unread } :=
  ⟨h.addr, h.id, h.tags.frame _ _ _ _ _, (h.seats.markEmitting slot).frame _ _,
    h.noted.update (fun _ _ hmem => .inr hmem) (fun _ => .inl rfl) (fun _ => rfl), h.count, h.fit,
    h.room⟩

theorem clearEmitting (slot : ℕ) :
    Answers addrHash t ((t.clearEmitting slot).map fun t' => (⟨.ok, none⟩, t'))
      (m.clearEmitting t.limits slot) := by
  rw [IndexedTable.clearEmitting, Maps.clearEmitting,
    show t.limits.slots = t.peerPool.capacity from rfl]
  by_cases hslot : t.peerPool.capacity ≤ slot
  · rw [if_pos hslot, if_pos hslot]
    exact ⟨t, rfl, h, rfl⟩
  rw [if_neg hslot, if_neg hslot]
  have hnoted : Noted (Function.update t.peers slot
      { t.peers slot with emitting := false, freeWhenRead := false }) (m.unread \ {slot}) :=
    h.noted.update (fun _ hother hmem => ⟨hmem, hother⟩) Bool.noConfusion Bool.noConfusion
  by_cases hwaits : (t.peers slot).freeWhenRead = true
  · have hdead : ¬ m.Live slot := by
      rintro ⟨a, ha⟩
      rw [(h.seats.addr a slot ha).2] at hwaits
      cases hwaits
    obtain ⟨pool, hrelease, hcap, htracks⟩ := h.seats.pool.release (Or.inr hwaits)
    rw [if_pos hwaits, hrelease]
    refine ⟨_, rfl, ⟨h.addr, h.id, h.tags.frame _ _ _ _ _, (h.seats.clearEmitting ?_).frame _ _,
      hnoted, h.count, h.fit, h.room⟩, ?_⟩
    · convert htracks using 1
      ext other
      by_cases hother : other = slot
      · simp [hother, hdead]
      · simp [hother]
    · rw [limits, limits, hcap]
  · rw [if_neg hwaits]
    refine ⟨_, rfl, ⟨h.addr, h.id, h.tags.frame _ _ _ _ _, (h.seats.clearEmitting ?_).frame _ _,
      hnoted, h.count, h.fit, h.room⟩, rfl⟩
    convert h.seats.pool using 1
    ext other
    by_cases hother : other = slot
    · simp [hother, hwaits]
    · simp [hother]

theorem apply (op : TableOp) :
    ∃ given, m.Gives t.limits given ∧
      Answers addrHash t (t.apply addrHash op) (m.apply t.limits given op) := by
  -- only a registration asks the pool
  obtain ⟨given, hgiven⟩ := m.exists_gives t.limits
  cases op with
  | registerPeer addr id hint => exact h.registerPeer addr id hint
  | bindId slot id => exact ⟨given, hgiven, h.bindId slot id⟩
  | updateAddress slot newAddr => exact ⟨given, hgiven, h.updateAddress slot newAddr⟩
  | bindTag slot tag => exact ⟨given, hgiven, h.bindTag slot tag⟩
  | unbindTag slot tag => exact ⟨given, hgiven, h.unbindTag slot tag⟩
  | unbindTags slot => exact ⟨given, hgiven, h.unbindTags slot⟩
  | removePeer addr => exact ⟨given, hgiven, h.removePeer addr⟩
  | removePeerById id => exact ⟨given, hgiven, h.removePeerById id⟩
  | markEmitting slot => exact ⟨given, hgiven, _, rfl, h.markEmitting slot, rfl⟩
  | clearEmitting slot => exact ⟨given, hgiven, h.clearEmitting slot⟩

theorem runOps (ops : List TableOp) :
    ∃ replies t' m', t.runOps addrHash ops = some (replies, t') ∧
      Maps.Run t.limits m ops replies m' ∧ t'.Refines addrHash m' ∧ t'.limits = t.limits := by
  induction ops generalizing t m with
  | nil => exact ⟨[], t, m, rfl, .nil m, h, rfl⟩
  | cons op ops ih =>
    obtain ⟨given, hfree, t₁, hstep, hrefines, hlimits⟩ := h.apply op
    obtain ⟨replies, t', m', hrun, hmaps, hrefines', hlimits'⟩ := ih hrefines
    rw [hlimits] at hmaps hlimits'
    refine ⟨_, t', m', ?_, .cons op given hfree hmaps, hrefines', hlimits'⟩
    rw [IndexedTable.runOps, hstep]
    simp only [Option.bind_eq_bind, Option.bind_some, hrun]

/-! ### Lookups -/

theorem getPeer (addr : Address) : t.getPeer addrHash addr = m.byAddr.lookup addr := by
  apply h.addr.lookup_eq h.addr_room
  intro addr' slot hlook
  rw [decide_eq_true_iff, (h.seats.addr addr' slot hlook).1]

theorem getPeerById (id : BcpId) : t.getPeerById id = m.byId.lookup id := by
  apply h.id.lookup_eq h.id_room
  intro id' slot hlook
  obtain ⟨-, hhas, hid⟩ := (h.seats.id id' slot).mp hlook
  rw [hhas, Bool.true_and, decide_eq_true_iff, hid]

theorem getPeersByTag (tag : PeerTag) {max : ℕ} (hmax : 0 < max) :
    ∃ found : List ℕ, (found : Multiset ℕ) = m.holders tag ∧
      t.getPeersByTag tag max = (found.length, found.take max) := by
  rw [IndexedTable.getPeersByTag, if_neg (by omega)]
  by_cases htag : hashTag tag = 0
  · refine ⟨[], ?_, by rw [if_pos htag, List.take_nil, List.length_nil]⟩
    symm
    apply Multiset.eq_zero_of_forall_notMem
    intro slot hslot
    exact h.tags.named _ (Maps.mem_holders.mp hslot) htag
  · rw [if_neg htag]
    exact ⟨_, h.tags.collect_holders tag, rfl⟩

end Refines

/-- Every lookup answers from the maps: `GetPeersByTag` gives the number of peers bound to the
tag, and as many of them as the caller has room for. -/
structure Reads (addrHash : Address → ℕ) (t : IndexedTable) (m : Maps) : Prop where
  addr : ∀ addr, t.getPeer addrHash addr = m.byAddr.lookup addr
  id : ∀ id, t.getPeerById id = m.byId.lookup id
  tag : ∀ tag max, 0 < max → ∃ found : List ℕ, (found : Multiset ℕ) = m.holders tag ∧
    t.getPeersByTag tag max = (found.length, found.take max)

theorem Refines.reads {addrHash : Address → ℕ} {t : IndexedTable} {m : Maps}
    (h : t.Refines addrHash m) : t.Reads addrHash m :=
  ⟨h.getPeer, h.getPeerById, fun tag _ hmax => h.getPeersByTag tag hmax⟩

/-! ### A fresh table -/

theorem lt_buckets (entries : ℕ) (hpos : entries ≠ 0) (hneed : need entries ≤ 2 ^ 30) :
    entries < nextPowerOfTwo (need entries) := by
  have hle := le_nextPowerOfTwo hneed
  have hlt : entries < need entries := by
    rw [need, maxLoadPercent]
    omega
  omega

theorem refines_init (addrHash : Address → ℕ) {capacity : ℕ} {t : IndexedTable}
    (hinit : init capacity = some t) : t.Refines addrHash Maps.empty ∧ t.peerCapacity = capacity := by
  unfold init at hinit
  split_ifs at hinit with hzero hneed htags
  obtain ⟨pool, hpool, rfl⟩ := Option.map_eq_some_iff.mp hinit
  have hword : capacity < 2 ^ 32 := by
    rw [need, maxLoadPercent] at hneed
    omega
  have hnobody : {slot | Maps.empty.Live slot ∨ PeerRecord.blank.freeWhenRead = true} = ∅ := by
    ext slot
    simp [Maps.Live, Maps.empty, PeerRecord.blank]
  have hbuckets := lt_buckets capacity hzero (Nat.not_lt.mp hneed)
  have htagBuckets := lt_buckets (capacity * maxTagsPerPeer) (by rw [maxTagsPerPeer]; omega)
    (Nat.not_lt.mp htags)
  refine ⟨⟨holds_empty, holds_empty, ⟨ordered_empty, contents_empty, rfl, ?_, Nat.zero_le _,
    htagBuckets⟩, ⟨?_, ?_, ?_⟩, ⟨?_, ?_⟩, rfl, Nat.zero_le _, hbuckets⟩, rfl⟩
  · intro x hx
    exact absurd hx (Multiset.notMem_zero x)
  · intro a slot ha
    simp [Maps.empty] at ha
  · intro i slot
    simp [Maps.empty, Maps.Live]
  · rw [hnobody]
    exact SlotPool.tracks_init hword hpool
  · intro slot hemit
    cases hemit
  · intro slot hfree
    cases hfree

/-- Any run of the table from its start is a run of three finite maps: every call returns, with
the reply the maps give; the lookups read the maps; there are never more peers than the
capacity; and a call that fails leaves what the lookups read. -/
theorem runOps_refines_maps (addrHash : Address → ℕ) {capacity : ℕ} {t : IndexedTable}
    (hinit : init capacity = some t) (ops : List TableOp) :
    ∃ replies t' m, t.runOps addrHash ops = some (replies, t') ∧
      Maps.Run t.limits Maps.empty ops replies m ∧ t'.Reads addrHash m ∧
      m.byAddr.entries.card ≤ capacity ∧
      ∀ op, ∃ reply t'', t'.apply addrHash op = some (reply, t'') ∧
        (reply.code ≠ .ok → t''.Reads addrHash m) := by
  obtain ⟨hstart, hcap⟩ := refines_init addrHash hinit
  obtain ⟨replies, t', m, hrun, hmaps, hrefines, hlimits⟩ := hstart.runOps ops
  refine ⟨replies, t', m, hrun, hmaps, hrefines.reads, ?_, ?_⟩
  · have hpeers : t'.peerCapacity = t.peerCapacity := congrArg Limits.peers hlimits
    rw [← hcap, ← hpeers]
    exact hrefines.fit
  · intro op
    obtain ⟨given, -, t'', hstep, hnext, -⟩ := hrefines.apply op
    refine ⟨_, t'', hstep, ?_⟩
    intro herror
    rcases (m.apply_settles t'.limits given op).1 with hok | hsame
    · exact absurd hok herror
    · rw [hsame] at hnext
      exact hnext.reads

/-- Addresses of one hash in a table for two.  One peer leaves while an event about it is unread,
so there is no slot for the third until the event was read. -/
def collidingOps : List TableOp :=
  [.registerPeer ⟨[10, 0, 0, 1], 0, 7⟩ none 0, .registerPeer ⟨[10, 0, 0, 2], 0, 7⟩ none 0,
    .markEmitting 0, .removePeer ⟨[10, 0, 0, 1], 0, 7⟩, .registerPeer ⟨[10, 0, 0, 3], 0, 7⟩ none 0,
    .clearEmitting 0, .registerPeer ⟨[10, 0, 0, 3], 0, 7⟩ none 0]

def collidingReplies : List Reply :=
  [⟨.ok, some 0⟩, ⟨.ok, some 1⟩, ⟨.ok, none⟩, ⟨.ok, none⟩, ⟨.limitReached, none⟩, ⟨.ok, none⟩,
    ⟨.ok, some 0⟩]

theorem runOps_refines_maps_colliding : ∃ t, init 2 = some t ∧ ∃ t' m,
    t.runOps (fun _ => 0) collidingOps = some (collidingReplies, t') ∧
      Maps.Run t.limits Maps.empty collidingOps collidingReplies m ∧ t'.Reads (fun _ => 0) m ∧
      m.byAddr.entries.card ≤ 2 ∧
      ∀ op, ∃ reply t'', t'.apply (fun _ => 0) op = some (reply, t'') ∧
        (reply.code ≠ .ok → t''.Reads (fun _ => 0) m) := by
  obtain ⟨t, ht⟩ : ∃ t, init 2 = some t := Option.isSome_iff_exists.mp (by decide +kernel)
  have hreplies : (init 2).bind (fun t => (t.runOps (fun _ => 0) collidingOps).map Prod.fst) =
      some collidingReplies := by decide +kernel
  obtain ⟨replies, t', m, hrun, hrest⟩ := runOps_refines_maps (fun _ => 0) ht collidingOps
  rw [ht, Option.bind_some, hrun, Option.map_some, Option.some.injEq] at hreplies
  dsimp only at hreplies
  rw [hreplies] at hrun hrest
  exact ⟨t, ht, t', m, hrun, hrest⟩

end IndexedTable

end BcpFlux.Peer
