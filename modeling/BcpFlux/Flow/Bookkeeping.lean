import BcpFlux.Flow.Associations
import BcpFlux.Library.Runs
import Mathlib.Data.List.Nodup

/-! # Directories, lists and live associations name each other

Creation enters an association in two places, teardown has to leave both.  `SweepPeer`
starts from the directory and `CloseFlow` from the list, and each reaches the other
place through what the association remembers of its owner.  The results are about every
run of the calls.
-/

namespace BcpFlux.Flow
open Library Function

namespace AssocTable

/-! ## One entry, one link -/

def Live (t : AssocTable) (a : ℕ) : Prop := t.leased a = true ∧ (t.assocs a).life ≠ .closed

instance (t : AssocTable) (a : ℕ) : Decidable (t.Live a) := inferInstanceAs (Decidable (_ ∧ _))

/-- Each live association stands once in the directory of its peer and once on the list of
its flow and nowhere else, and entries and links name nothing but live associations of
their own flow id and peer. -/
structure Bijective (t : AssocTable) : Prop where
  directory : ∀ a, t.Live a → (t.peers (t.assocs a).peerSlot).isSome = true ∧
    ∀ p, ((t.dirs p).map FlowDirEntry.assocSlot).count a =
      if p = (t.assocs a).peerSlot then 1 else 0
  list : ∀ a, t.Live a → ∃ f, (t.flows f).flowId = some (t.assocs a).flowId ∧
    ∀ g, (t.flows g).assocs.count a = if g = f then 1 else 0
  entries : ∀ p, ∀ e ∈ t.dirs p, t.Live e.assocSlot ∧
    (t.assocs e.assocSlot).flowId = e.flowId ∧ (t.assocs e.assocSlot).peerSlot = p
  links : ∀ f, ∀ a ∈ (t.flows f).assocs, t.Live a ∧
    (t.flows f).flowId = some (t.assocs a).flowId

/-- The same as facts each step can keep, with what `CloseFlow` needs to find the owner. -/
structure Sound (t : AssocTable) : Prop where
  entries : ∀ p, ∀ e ∈ t.dirs p, t.Live e.assocSlot ∧
    (t.assocs e.assocSlot).flowId = e.flowId ∧ (t.assocs e.assocSlot).peerSlot = p
  entries_nodup : ∀ p, ((t.dirs p).map FlowDirEntry.assocSlot).Nodup
  listed : ∀ a, t.Live a → ⟨(t.assocs a).flowId, a⟩ ∈ t.dirs (t.assocs a).peerSlot
  links : ∀ f, ∀ a ∈ (t.flows f).assocs, t.Live a ∧ (t.assocs a).flowSlot = some f ∧
    (t.flows f).flowId = some (t.assocs a).flowId
  links_nodup : ∀ f, (t.flows f).assocs.Nodup
  linked : ∀ a, t.Live a → ∃ f, (t.assocs a).flowSlot = some f ∧ a ∈ (t.flows f).assocs
  owner : ∀ a, t.Live a → ∃ e, t.peers (t.assocs a).peerSlot = some e ∧
    ∀ id, (t.assocs a).peerId = some id → e.id = some id
  ids : ∀ p q e e' id, t.peers p = some e → t.peers q = some e' → e.id = some id →
    e'.id = some id → p = q
  bound : ∀ p e, t.peers p = some e → p < t.maxPeers

variable {t : AssocTable} {a b p f : ℕ}

theorem Sound.bijective (h : t.Sound) : t.Bijective where
  directory := by
    intro a ha
    obtain ⟨peer, hpeer, -⟩ := h.owner a ha
    refine ⟨by rw [hpeer]; rfl, ?_⟩
    intro p
    split_ifs with hp
    · rw [hp]
      exact List.count_eq_one_of_mem (h.entries_nodup _)
        (List.mem_map.mpr ⟨_, h.listed a ha, rfl⟩)
    · apply List.count_eq_zero_of_not_mem
      intro hmem
      obtain ⟨e, he, rfl⟩ := List.mem_map.mp hmem
      exact hp (h.entries p e he).2.2.symm
  list := by
    intro a ha
    obtain ⟨f, hf, hmem⟩ := h.linked a ha
    refine ⟨f, (h.links f a hmem).2.2, ?_⟩
    intro g
    split_ifs with hg
    · rw [hg]
      exact List.count_eq_one_of_mem (h.links_nodup f) hmem
    · apply List.count_eq_zero_of_not_mem
      intro hmem'
      have hsame := (h.links g a hmem').2.1
      rw [hf] at hsame
      exact hg (Option.some.inj hsame).symm
  entries := h.entries
  links := fun f a ha => ⟨(h.links f a ha).1, (h.links f a ha).2.2⟩

/-! ## One association goes -/

theorem mem_eraseP_key {α κ : Type*} [DecidableEq κ] {key : α → κ} {k : κ} {l : List α}
    (h : (l.map key).Nodup) (x : α) : x ∈ l.eraseP (fun y => key y = k) ↔ x ∈ l ∧ key x ≠ k := by
  induction l with
  | nil => simp
  | cons y l ih =>
    rw [List.map_cons, List.nodup_cons] at h
    by_cases hy : key y = k
    · -- the erased entry is the only one of its key
      have hrest : x ∈ l → key x ≠ k := by
        intro hx heq
        exact h.1 (List.mem_map.mpr ⟨x, hx, heq.trans hy.symm⟩)
      rw [List.eraseP_cons_of_pos (by simpa using hy)]
      constructor
      · exact fun hx => ⟨List.mem_cons_of_mem y hx, hrest hx⟩
      · rintro ⟨hx, hne⟩
        rcases List.mem_cons.mp hx with rfl | hx
        · exact absurd hy hne
        · exact hx
    · rw [List.eraseP_cons_of_neg (by simpa using hy), List.mem_cons, List.mem_cons, ih h.2]
      constructor
      · rintro (rfl | ⟨hx, hne⟩)
        · exact ⟨Or.inl rfl, hy⟩
        · exact ⟨Or.inr hx, hne⟩
      · rintro ⟨rfl | hx, hne⟩
        · exact Or.inl rfl
        · exact Or.inr ⟨hx, hne⟩

/-- The table once a live association has left its directory, its list and, unless an event
about it is unread, its slot. -/
def without (t : AssocTable) (a f : ℕ) : AssocTable :=
  { t with
    dirs := update t.dirs (t.assocs a).peerSlot
      ((t.dirs (t.assocs a).peerSlot).eraseP fun e => e.assocSlot = a)
    flows := update t.flows f { t.flows f with assocs := (t.flows f).assocs.erase a }
    assocs := update t.assocs a { t.assocs a with flowSlot := none, life := .closed }
    leased := update t.leased a (t.leased a && (t.assocs a).emitting) }

theorem unpublish_free_eq (hf : (t.assocs a).flowSlot = some f) (ha : a ∈ (t.flows f).assocs) :
    (t.unpublishOut (t.assocs a).peerSlot a).freeAssoc a = t.without a f := by
  simp only [freeAssoc, unlinkFromOwner, unpublishOut, hf, unlinkAssociation, ha, if_true,
    update_self, update_idem, without]

theorem without_live (t : AssocTable) (a f b : ℕ) :
    (t.without a f).Live b ↔ t.Live b ∧ b ≠ a := by
  by_cases hb : b = a
  · subst hb
    simp [Live, without]
  · simp [Live, without, hb]

theorem without_assoc (t : AssocTable) (f : ℕ) (hb : b ≠ a) :
    (t.without a f).assocs b = t.assocs b := by
  simp [without, hb]

theorem Sound.mem_without_dirs (h : t.Sound) (a f p : ℕ) (e : FlowDirEntry) :
    e ∈ (t.without a f).dirs p ↔
      e ∈ t.dirs p ∧ (p = (t.assocs a).peerSlot → e.assocSlot ≠ a) := by
  by_cases hp : p = (t.assocs a).peerSlot
  · subst hp
    simp only [without, update_self, mem_eraseP_key (h.entries_nodup _), forall_const]
  · simp [without, hp]

theorem Sound.mem_without_links (h : t.Sound) (a f g b : ℕ) :
    b ∈ ((t.without a f).flows g).assocs ↔ b ∈ (t.flows g).assocs ∧ (g = f → b ≠ a) := by
  by_cases hg : g = f
  · subst hg
    simp only [without, update_self, (h.links_nodup g).mem_erase_iff, forall_const]
    exact and_comm
  · simp [without, hg]

theorem without_flowId (t : AssocTable) (a f g : ℕ) :
    ((t.without a f).flows g).flowId = (t.flows g).flowId := by
  by_cases hg : g = f
  · subst hg
    simp [without]
  · simp [without, hg]

theorem Sound.without (h : t.Sound) (hf : (t.assocs a).flowSlot = some f) :
    (t.without a f).Sound where
  entries := by
    intro p e he
    obtain ⟨hmem, hother⟩ := (h.mem_without_dirs a f p e).mp he
    obtain ⟨hlive, hid, hpeer⟩ := h.entries p e hmem
    have hne : e.assocSlot ≠ a := by
      rintro rfl
      exact hother hpeer.symm rfl
    rw [without_live, without_assoc t f hne]
    exact ⟨⟨hlive, hne⟩, hid, hpeer⟩
  entries_nodup := by
    intro p
    simp only [AssocTable.without, update_apply]
    split_ifs
    · exact (h.entries_nodup _).sublist ((List.eraseP_sublist).map _)
    · exact h.entries_nodup p
  listed := by
    intro b hb
    rw [without_live] at hb
    rw [without_assoc t f hb.2, h.mem_without_dirs]
    exact ⟨h.listed b hb.1, fun _ => hb.2⟩
  links := by
    intro g b hb
    obtain ⟨hmem, hother⟩ := (h.mem_without_links a f g b).mp hb
    obtain ⟨hlive, hslot, hid⟩ := h.links g b hmem
    have hne : b ≠ a := by
      rintro rfl
      rw [hf] at hslot
      exact hother (Option.some.inj hslot).symm rfl
    rw [without_live, without_assoc t f hne, without_flowId]
    exact ⟨⟨hlive, hne⟩, hslot, hid⟩
  links_nodup := by
    intro g
    simp only [AssocTable.without, update_apply]
    split_ifs
    · exact (h.links_nodup _).erase a
    · exact h.links_nodup g
  linked := by
    intro b hb
    rw [without_live] at hb
    obtain ⟨g, hg, hmem⟩ := h.linked b hb.1
    rw [without_assoc t f hb.2]
    exact ⟨g, hg, (h.mem_without_links a f g b).mpr ⟨hmem, fun _ => hb.2⟩⟩
  owner := by
    intro b hb
    rw [without_live] at hb
    rw [without_assoc t f hb.2]
    exact h.owner b hb.1
  ids := h.ids
  bound := h.bound

/-- Unpublished from its own directory and freed, an association leaves the others alone. -/
theorem Sound.retire (h : t.Sound) (ha : t.Live a) :
    ∃ f, (t.assocs a).flowSlot = some f ∧
      (t.unpublishOut (t.assocs a).peerSlot a).freeAssoc a = t.without a f ∧
      (t.without a f).Sound := by
  obtain ⟨f, hf, hmem⟩ := h.linked a ha
  exact ⟨f, hf, unpublish_free_eq hf hmem, h.without hf⟩

/-! ## The loops of teardown -/

theorem Sound.sweepDir (p turns : ℕ) {t : AssocTable} (h : t.Sound) :
    (sweepDir p turns t).Sound ∧ (sweepDir p turns t).peers = t.peers ∧
      ((t.dirs p).length ≤ turns → (sweepDir p turns t).dirs p = []) := by
  induction turns generalizing t with
  | zero =>
    refine ⟨h, rfl, ?_⟩
    intro hlen
    exact List.length_eq_zero_iff.mp (Nat.le_zero.mp hlen)
  | succ turns ih =>
    rw [AssocTable.sweepDir]
    split
    · next hnil => exact ⟨h, rfl, fun _ => hnil⟩
    · next e rest hcons =>
      obtain ⟨hlive, -, hpeer⟩ := h.entries p e (by simp [hcons])
      obtain ⟨f, -, heq, hsound⟩ := h.retire hlive
      rw [hpeer] at heq
      rw [heq]
      obtain ⟨h1, h2, h3⟩ := ih hsound
      refine ⟨h1, h2, ?_⟩
      intro hlen
      apply h3
      -- the entry in front is the one erased
      have hdirs : (t.without e.assocSlot f).dirs p = rest := by
        simp [AssocTable.without, hpeer, hcons]
      rw [hdirs]
      rw [hcons, List.length_cons] at hlen
      omega

theorem Sound.removePeer (h : t.Sound) (addr : Address) : (t.removePeer addr).Sound := by
  unfold AssocTable.removePeer
  split
  · exact h
  · next p hp =>
    obtain ⟨hsound, hpeers, hempty⟩ := h.sweepDir p (t.dirs p).length
    have hnone := hempty (Nat.le_refl _)
    refine { hsound with owner := ?_, ids := ?_, bound := ?_ }
    · intro b hb
      -- nothing live is left with this peer
      have hne : ((AssocTable.sweepDir p (t.dirs p).length t).assocs b).peerSlot ≠ p := by
        intro heq
        have hmem := hsound.listed b hb
        rw [heq, hnone] at hmem
        cases hmem
      simp only [update_apply]
      rw [if_neg hne]
      exact hsound.owner b hb
    · intro q r e e' id hq hr
      simp only [update_apply] at hq hr
      split_ifs at hq hr
      exact hsound.ids q r e e' id hq hr
    · intro q e hq
      simp only [update_apply] at hq
      split_ifs at hq
      exact hsound.bound q e hq

/-- The address an association without an identity was created with still leads to its peer. -/
def Reachable (t : AssocTable) (a : ℕ) : Prop :=
  (t.assocs a).peerId = none → t.peerAt (t.assocs a).peerAddr = some (t.assocs a).peerSlot

instance (t : AssocTable) (a : ℕ) : Decidable (t.Reachable a) :=
  inferInstanceAs (Decidable (_ → _))

theorem peerWithId_eq (h : t.Sound) {e : Endpoint} {id : BcpId} (hp : t.peers p = some e)
    (hid : e.id = some id) : t.peerWithId id = some p := by
  have hsome : (t.peerWithId id).isSome = true := by
    rw [peerWithId, List.find?_isSome]
    exact ⟨p, List.mem_range.mpr (h.bound p e hp), by simp [hp, hid]⟩
  obtain ⟨q, hq⟩ := Option.isSome_iff_exists.mp hsome
  have hqid := List.find?_some hq
  simp only [decide_eq_true_eq, Option.bind_eq_some_iff] at hqid
  obtain ⟨e', he', hid'⟩ := hqid
  rw [hq, h.ids q p e' e id he' hp hid' hid]

theorem Sound.ownerOf_eq (h : t.Sound) (ha : t.Live a) (hreach : t.Reachable a) :
    t.ownerOf a = some (t.assocs a).peerSlot := by
  unfold AssocTable.ownerOf
  split
  · next id hid =>
    obtain ⟨e, he, hown⟩ := h.owner a ha
    exact peerWithId_eq h he (hown id hid)
  · next hnone => exact hreach hnone

theorem Sound.closeAssocs (f turns : ℕ) {t : AssocTable} (h : t.Sound)
    (hreach : ∀ a ∈ (t.flows f).assocs, t.Reachable a) :
    (closeAssocs f turns t).Sound ∧
      ((t.flows f).assocs.length ≤ turns → ((closeAssocs f turns t).flows f).assocs = []) := by
  induction turns generalizing t with
  | zero =>
    refine ⟨h, ?_⟩
    intro hlen
    exact List.length_eq_zero_iff.mp (Nat.le_zero.mp hlen)
  | succ turns ih =>
    rw [AssocTable.closeAssocs]
    split
    · next hnil => exact ⟨h, fun _ => hnil⟩
    · next a rest hcons =>
      have hmem : a ∈ (t.flows f).assocs := by simp [hcons]
      obtain ⟨hlive, hslot, -⟩ := h.links f a hmem
      obtain ⟨g, hg, heq, hsound⟩ := h.retire hlive
      rw [hslot, Option.some.injEq] at hg
      subst hg
      have hclose : t.closeAssoc a = t.without a f := by
        rw [closeAssoc, h.ownerOf_eq hlive (hreach a hmem)]
        exact heq
      rw [hclose]
      obtain ⟨h1, h2⟩ := ih hsound (by
        intro b hb
        obtain ⟨hmem', hother⟩ := (h.mem_without_links a f f b).mp hb
        rw [Reachable, without_assoc t f (hother rfl)]
        exact hreach b hmem')
      refine ⟨h1, ?_⟩
      intro hlen
      apply h2
      have hlinks : ((t.without a f).flows f).assocs = rest := by
        simp [AssocTable.without, hcons]
      rw [hlinks]
      rw [hcons, List.length_cons] at hlen
      omega

theorem Sound.setFlow (h : t.Sound) (f : ℕ) {flow : FlowSlot}
    (hassocs : flow.assocs = (t.flows f).assocs)
    (hid : flow.flowId = (t.flows f).flowId ∨ (t.flows f).assocs = []) :
    (t.setFlow f flow).Sound := by
  have hsame : ∀ g, ((t.setFlow f flow).flows g).assocs = (t.flows g).assocs := by
    intro g
    by_cases hg : g = f
    · subst hg
      simpa [AssocTable.setFlow] using hassocs
    · simp [AssocTable.setFlow, hg]
  refine { h with links := ?_, links_nodup := ?_, linked := ?_ }
  · intro g a ha
    rw [hsame] at ha
    obtain ⟨hlive, hslot, hflow⟩ := h.links g a ha
    refine ⟨hlive, hslot, ?_⟩
    by_cases hg : g = f
    · subst hg
      rcases hid with hid | hnil
      · simpa [AssocTable.setFlow, hid] using hflow
      · rw [hnil] at ha
        cases ha
    · simpa [AssocTable.setFlow, hg] using hflow
  · intro g
    rw [hsame]
    exact h.links_nodup g
  · intro a ha
    obtain ⟨g, hg, hmem⟩ := h.linked a ha
    exact ⟨g, hg, by rw [hsame]; exact hmem⟩

theorem Sound.closeFlow (h : t.Sound) (f : ℕ)
    (hreach : ∀ a ∈ (t.flows f).assocs, t.Reachable a) : (t.closeFlow f).Sound := by
  unfold AssocTable.closeFlow
  split
  · have hclosing : (t.setFlow f { t.flows f with life := .closing }).Sound :=
      h.setFlow f rfl (Or.inl rfl)
    have hself : ((t.setFlow f { t.flows f with life := .closing }).flows f).assocs =
        (t.flows f).assocs := by
      simp [AssocTable.setFlow]
    obtain ⟨hsound, hempty⟩ := hclosing.closeAssocs f
      ((t.setFlow f { t.flows f with life := .closing }).flows f).assocs.length (by
        intro a ha
        rw [hself] at ha
        exact hreach a ha)
    exact hsound.setFlow f rfl (Or.inr (hempty (Nat.le_refl _)))
  · exact h

/-! ## The other calls -/

/-- Nothing the directories and lists depend on differs. -/
structure SameView (t' t : AssocTable) : Prop where
  live : ∀ a, t'.Live a ↔ t.Live a
  peerSlot : ∀ a, t.Live a → (t'.assocs a).peerSlot = (t.assocs a).peerSlot
  peerId : ∀ a, t.Live a → (t'.assocs a).peerId = (t.assocs a).peerId
  flowId : ∀ a, t.Live a → (t'.assocs a).flowId = (t.assocs a).flowId
  flowSlot : ∀ a, t.Live a → (t'.assocs a).flowSlot = (t.assocs a).flowSlot
  dirs : t'.dirs = t.dirs
  flows : t'.flows = t.flows
  peers : t'.peers = t.peers
  maxPeers : t'.maxPeers = t.maxPeers

theorem Sound.congr {t' : AssocTable} (h : t.Sound) (same : SameView t' t) : t'.Sound := by
  constructor
  · intro p e he
    rw [same.dirs] at he
    have hold := h.entries p e he
    rw [same.live, same.flowId _ hold.1, same.peerSlot _ hold.1]
    exact hold
  · rw [same.dirs]
    exact h.entries_nodup
  · intro a ha
    rw [same.live] at ha
    rw [same.dirs, same.flowId a ha, same.peerSlot a ha]
    exact h.listed a ha
  · intro f a ha
    rw [same.flows] at ha ⊢
    have hold := h.links f a ha
    rw [same.live, same.flowSlot a hold.1, same.flowId a hold.1]
    exact hold
  · rw [same.flows]
    exact h.links_nodup
  · intro a ha
    rw [same.live] at ha
    rw [same.flows, same.flowSlot a ha]
    exact h.linked a ha
  · intro a ha
    rw [same.live] at ha
    rw [same.peers, same.peerSlot a ha, same.peerId a ha]
    exact h.owner a ha
  · rw [same.peers]
    exact h.ids
  · rw [same.peers, same.maxPeers]
    exact h.bound

/-- A record is written over: one that is not live before or after, or one that keeps what
others read of it. -/
theorem Sound.setAssoc (h : t.Sound) {assoc : AssocRecord}
    (hlive : t.leased a = true → (assoc.life = .closed ↔ (t.assocs a).life = .closed))
    (hsame : t.Live a → assoc.peerSlot = (t.assocs a).peerSlot ∧
      assoc.peerId = (t.assocs a).peerId ∧ assoc.flowId = (t.assocs a).flowId ∧
      assoc.flowSlot = (t.assocs a).flowSlot) : (t.setAssoc a assoc).Sound := by
  have hrec : ∀ b, b ≠ a → (t.setAssoc a assoc).assocs b = t.assocs b := by
    intro b hb
    simp [AssocTable.setAssoc, hb]
  have hself : (t.setAssoc a assoc).assocs a = assoc := by simp [AssocTable.setAssoc]
  apply h.congr
  constructor
  · intro b
    rw [Live, Live]
    by_cases hb : b = a
    · subst hb
      rw [hself]
      exact and_congr_right fun hleased => not_congr (hlive hleased)
    · rw [hrec b hb]
      rfl
  · intro b hb
    by_cases heq : b = a
    · subst heq
      rw [hself]
      exact (hsame hb).1
    · rw [hrec b heq]
  · intro b hb
    by_cases heq : b = a
    · subst heq
      rw [hself]
      exact (hsame hb).2.1
    · rw [hrec b heq]
  · intro b hb
    by_cases heq : b = a
    · subst heq
      rw [hself]
      exact (hsame hb).2.2.1
    · rw [hrec b heq]
  · intro b hb
    by_cases heq : b = a
    · subst heq
      rw [hself]
      exact (hsame hb).2.2.2
    · rw [hrec b heq]
  · rfl
  · rfl
  · rfl
  · rfl

theorem Sound.publish (h : t.Sound) (ha : t.leased a = false) {assoc : AssocRecord}
    (hlife : assoc.life ≠ .closed) {peer : Endpoint} (hpeer : t.peers assoc.peerSlot = some peer)
    (hid : assoc.peerId = peer.id) (hflow : (t.flows f).flowId = some assoc.flowId) :
    (t.publish a assoc f).Sound := by
  have hdead : ¬ t.Live a := by simp [Live, ha]
  have hlive : ∀ b, (t.publish a assoc f).Live b ↔ t.Live b ∨ b = a := by
    intro b
    by_cases hb : b = a
    · subst hb
      simp [Live, AssocTable.publish, hlife]
    · simp [Live, AssocTable.publish, hb]
  have hne : ∀ b, t.Live b → b ≠ a := fun b hb heq => hdead (heq ▸ hb)
  have hrec : ∀ b, t.Live b → (t.publish a assoc f).assocs b = t.assocs b := by
    intro b hb
    simp [AssocTable.publish, hne b hb]
  have hself : (t.publish a assoc f).assocs a = { assoc with flowSlot := some f } := by
    simp [AssocTable.publish]
  have hdir : ∀ p e, e ∈ (t.publish a assoc f).dirs p ↔
      e ∈ t.dirs p ∨ p = assoc.peerSlot ∧ e = ⟨assoc.flowId, a⟩ := by
    intro p e
    by_cases hp : p = assoc.peerSlot
    · subst hp
      simp [AssocTable.publish]
    · simp [AssocTable.publish, hp]
  have hlink : ∀ g b, b ∈ ((t.publish a assoc f).flows g).assocs ↔
      b ∈ (t.flows g).assocs ∨ g = f ∧ b = a := by
    intro g b
    by_cases hg : g = f
    · subst hg
      simp [AssocTable.publish, or_comm]
    · simp [AssocTable.publish, hg]
  have hflowId : ∀ g, ((t.publish a assoc f).flows g).flowId = (t.flows g).flowId := by
    intro g
    by_cases hg : g = f
    · subst hg
      simp [AssocTable.publish]
    · simp [AssocTable.publish, hg]
  constructor
  · intro p e he
    rw [hlive]
    rcases (hdir p e).mp he with hold | ⟨rfl, rfl⟩
    · have hent := h.entries p e hold
      rw [hrec _ hent.1]
      exact ⟨Or.inl hent.1, hent.2⟩
    · rw [hself]
      exact ⟨Or.inr rfl, rfl, rfl⟩
  · intro p
    by_cases hp : p = assoc.peerSlot
    · subst hp
      simp only [AssocTable.publish, update_self, List.map_append, List.map_cons,
        List.map_nil]
      refine List.Nodup.append (h.entries_nodup _) (List.nodup_singleton a) ?_
      intro b hb hb'
      obtain ⟨e, he, rfl⟩ := List.mem_map.mp hb
      exact hne _ (h.entries _ e he).1 (List.mem_singleton.mp hb')
    · simpa [AssocTable.publish, hp] using h.entries_nodup p
  · intro b hb
    rw [hdir]
    rcases (hlive b).mp hb with hold | rfl
    · rw [hrec b hold]
      exact Or.inl (h.listed b hold)
    · rw [hself]
      exact Or.inr ⟨rfl, rfl⟩
  · intro g b hb
    rw [hlive, hflowId]
    rcases (hlink g b).mp hb with hold | ⟨rfl, rfl⟩
    · have hl := h.links g b hold
      rw [hrec b hl.1]
      exact ⟨Or.inl hl.1, hl.2⟩
    · rw [hself]
      exact ⟨Or.inr rfl, rfl, hflow⟩
  · intro g
    by_cases hg : g = f
    · subst hg
      simp only [AssocTable.publish, update_self, List.nodup_cons]
      refine ⟨?_, h.links_nodup _⟩
      intro hmem
      exact hdead (h.links g a hmem).1
    · simpa [AssocTable.publish, hg] using h.links_nodup g
  · intro b hb
    rcases (hlive b).mp hb with hold | rfl
    · obtain ⟨g, hg, hmem⟩ := h.linked b hold
      rw [hrec b hold]
      exact ⟨g, hg, (hlink g b).mpr (Or.inl hmem)⟩
    · rw [hself]
      exact ⟨f, rfl, (hlink f b).mpr (Or.inr ⟨rfl, rfl⟩)⟩
  · intro b hb
    rcases (hlive b).mp hb with hold | rfl
    · rw [hrec b hold]
      exact h.owner b hold
    · rw [hself]
      exact ⟨peer, hpeer, fun id heq => hid ▸ heq⟩
  · exact h.ids
  · exact h.bound

theorem Sound.createAssociation (h : t.Sound) {peer : Endpoint} (hpeer : t.peers p = some peer)
    (flowId : ℕ) (acquired : Option ℕ) :
    (t.createAssociation p peer flowId acquired).Sound := by
  unfold AssocTable.createAssociation
  split
  · next f a hfind =>
    have hflow : (t.flows f).flowId = some flowId := by
      simpa using List.find?_some hfind
    split
    · exact h
    · next hfree =>
      rw [not_or, Bool.not_eq_true] at hfree
      split
      · exact h.publish hfree.2 (by simp) hpeer rfl hflow
      · refine h.setAssoc (fun hleased => ?_) (fun hlive => ?_)
        · rw [hfree.2] at hleased
          cases hleased
        · rw [Live, hfree.2] at hlive
          exact absurd hlive.1 (by simp)
  · exact h

theorem Sound.admitOut (h : t.Sound) (p flowId : ℕ) (acquired : Option ℕ) :
    (t.admitOut p flowId acquired).Sound := by
  unfold AssocTable.admitOut
  split
  · next peer hpeer _ => exact h.createAssociation hpeer flowId acquired
  · exact h

theorem Sound.setPeer (h : t.Sound) {e' : Endpoint} (hp : p < t.maxPeers)
    (hkeep : ∀ e id, t.peers p = some e → e.id = some id → e'.id = some id)
    (hnew : ∀ id, e'.id = some id → ∀ q e, t.peers q = some e → e.id = some id → q = p) :
    { t with peers := update t.peers p (some e') }.Sound := by
  refine { h with owner := ?_, ids := ?_, bound := ?_ }
  · intro a ha
    obtain ⟨e, he, hid⟩ := h.owner a ha
    by_cases heq : (t.assocs a).peerSlot = p
    · rw [heq] at he
      refine ⟨e', by simp [heq], ?_⟩
      intro id hcaptured
      exact hkeep e id he (hid id hcaptured)
    · exact ⟨e, by simpa [heq] using he, hid⟩
  · intro q r e₁ e₂ id hq hr h1 h2
    simp only [update_apply] at hq hr
    split_ifs at hq hr with hqp hrp hrp
    · rw [hqp, hrp]
    · cases hq
      rw [hqp]
      exact (hnew id h1 r e₂ hr h2).symm
    · cases hr
      rw [hrp]
      exact hnew id h2 q e₁ hq h1
    · exact h.ids q r e₁ e₂ id hq hr h1 h2
  · intro q e hq
    simp only [update_apply] at hq
    split_ifs at hq with hqp
    · rw [hqp]
      exact hp
    · exact h.bound q e hq

theorem Sound.id_unused (h : t.Sound) {id : BcpId} (hnone : t.peerWithId id = none) {e : Endpoint}
    (hq : t.peers p = some e) : e.id ≠ some id := by
  intro hid
  rw [peerWithId_eq h hq hid] at hnone
  cases hnone

theorem Sound.registerPeer (h : t.Sound) (slot : ℕ) (addr : Address) (id : Option BcpId) :
    (t.registerPeer slot addr id).Sound := by
  unfold AssocTable.registerPeer
  split
  · next hfree =>
    obtain ⟨hlt, hnone, -, hnew⟩ := hfree
    refine h.setPeer hlt ?_ ?_
    · intro e id' he
      rw [hnone] at he
      cases he
    · intro id' hid q e hq he
      simp only at hid
      subst hid
      exact absurd he (h.id_unused hnew hq)
  · exact h

theorem Sound.bindId (h : t.Sound) (slot : ℕ) (id : BcpId) : (t.bindId slot id).Sound := by
  unfold AssocTable.bindId
  split
  · next addr hslot =>
    split
    · next hnew =>
      refine h.setPeer (h.bound slot _ hslot) ?_ ?_
      · intro e id' he hid
        rw [hslot] at he
        cases he
        cases hid
      · intro id' hid q e hq he
        cases hid
        exact absurd he (h.id_unused hnew hq)
    · exact h
  · exact h

theorem Sound.updateAddress (h : t.Sound) (slot : ℕ) (addr : Address) :
    (t.updateAddress slot addr).Sound := by
  unfold AssocTable.updateAddress
  split
  · next old id hslot =>
    split
    · refine h.setPeer (h.bound slot _ hslot) ?_ ?_
      · intro e id' he hid
        rw [hslot] at he
        cases he
        exact hid
      · intro id' hid q e hq he
        exact h.ids q slot e _ id' hq hslot he hid
    · exact h
  · exact h

theorem Sound.openFlow (h : t.Sound) (flowId slot : ℕ) : (t.openFlow flowId slot).Sound := by
  unfold AssocTable.openFlow
  split
  · next hfree =>
    -- a slot without an id has no links
    have hnil : (t.flows slot).assocs = [] := by
      rw [List.eq_nil_iff_forall_not_mem]
      intro a ha
      have hid := (h.links slot a ha).2.2
      rw [hfree.2.1] at hid
      cases hid
    exact h.setFlow slot hnil.symm (Or.inr hnil)
  · exact h

theorem Sound.failAssoc (h : t.Sound) (a : ℕ) (recorded : Bool) :
    (t.failAssoc a recorded).Sound := by
  unfold AssocTable.failAssoc
  split
  · next hopen => exact h.setAssoc (fun _ => by simp [hopen.2]) (fun _ => ⟨rfl, rfl, rfl, rfl⟩)
  · exact h

theorem Sound.releaseClosed (h : t.Sound) (hclosed : (t.assocs a).life = .closed) :
    { t with leased := update t.leased a false }.Sound := by
  apply h.congr
  refine ⟨?_, fun _ _ => rfl, fun _ _ => rfl, fun _ _ => rfl, fun _ _ => rfl, rfl, rfl, rfl, rfl⟩
  intro b
  by_cases hb : b = a
  · subst hb
    simp [Live, hclosed]
  · simp [Live, hb]

theorem Sound.clearEmitting (h : t.Sound) (a : ℕ) : (t.clearEmitting a).Sound := by
  unfold AssocTable.clearEmitting
  split
  · have hread : (t.setAssoc a { t.assocs a with emitting := false }).Sound :=
      h.setAssoc (fun _ => Iff.rfl) (fun _ => ⟨rfl, rfl, rfl, rfl⟩)
    split
    · next hclosed =>
      exact hread.releaseClosed (by simpa [AssocTable.setAssoc] using hclosed)
    · exact hread
  · exact h

/-! ## Whole runs -/

/-- A flow is closed only while each of its associations can be led back to its peer. -/
def ClosesReachable (t : AssocTable) : Event → Prop
  | .closeFlow f => ∀ a ∈ (t.flows f).assocs, t.Reachable a
  | _ => True

instance (t : AssocTable) : DecidablePred t.ClosesReachable
  | .closeFlow f => inferInstanceAs (Decidable (∀ a ∈ (t.flows f).assocs, t.Reachable a))
  | .registerPeer .. | .bindId .. | .updateAddress .. | .removePeer .. | .openFlow .. | .send ..
  | .failAssoc .. | .clearEmitting .. => isTrue trivial

theorem Sound.step (h : t.Sound) (e : Event) (hok : t.ClosesReachable e) : (t.step e).Sound := by
  cases e with
  | registerPeer slot addr id => exact h.registerPeer slot addr id
  | bindId slot id => exact h.bindId slot id
  | updateAddress slot addr => exact h.updateAddress slot addr
  | removePeer addr => exact h.removePeer addr
  | openFlow flowId slot => exact h.openFlow flowId slot
  | closeFlow slot => exact h.closeFlow slot hok
  | send peerSlot flowId acquired => exact h.admitOut peerSlot flowId acquired
  | failAssoc a recorded => exact h.failAssoc a recorded
  | clearEmitting a => exact h.clearEmitting a

theorem sound_init (maxPeers maxOutAssocPerPeer flowCount : ℕ) :
    (init maxPeers maxOutAssocPerPeer flowCount).Sound := by
  constructor <;> simp [init, Live]

/-- In every run in which a flow is closed only while the address kept for an association
without an identity still leads to its peer, the directories, the lists and the live
associations name each other one to one. -/
theorem associations_bijective (maxPeers maxOutAssocPerPeer flowCount : ℕ) (events : List Event)
    (hok : Along step ClosesReachable (init maxPeers maxOutAssocPerPeer flowCount) events) :
    (run step (init maxPeers maxOutAssocPerPeer flowCount) events).Bijective :=
  (run_invariant step Sound ClosesReachable (fun _ e hok h => h.step e hok)
    (sound_init maxPeers maxOutAssocPerPeer flowCount) hok).bijective

/-- A peer known by its identity moves, and the flow to it is closed after that. -/
theorem associations_bijective_after_move :
    let here : Address := ⟨[10, 0, 0, 1], 4000, 0⟩
    let there : Address := ⟨[10, 0, 0, 2], 4000, 0⟩
    let events := [Event.registerPeer 0 here none, .bindId 0 ⟨[7]⟩, .openFlow 5 0,
      .send 0 5 (some 3), .updateAddress 0 there, .closeFlow 0]
    let t := run step (init 4 2 4) events
    t.Bijective ∧ t.dirs 0 = [] ∧ (t.assocs 3).life = .closed := by
  intro here there events t
  have hok : Along step ClosesReachable (init 4 2 4) events := by decide +kernel
  exact ⟨associations_bijective 4 2 4 events hok, by decide +kernel, by decide +kernel⟩

/-- A flow packet is admitted before the handshake is over, the peer then moves, and the
flow is closed: the directory of the peer keeps an entry for the freed slot. -/
theorem closed_association_stays_listed :
    let here : Address := ⟨[10, 0, 0, 1], 4000, 0⟩
    let there : Address := ⟨[10, 0, 0, 2], 4000, 0⟩
    let events := [Event.registerPeer 0 here none, .openFlow 5 0, .send 0 5 (some 3),
      .bindId 0 ⟨[7]⟩, .updateAddress 0 there, .closeFlow 0]
    let t := run step (init 4 2 4) events
    t.dirs 0 = [⟨5, 3⟩] ∧ ¬ t.Live 3 ∧ ¬ t.Bijective := by
  intro here there events t
  have hdir : t.dirs 0 = [⟨5, 3⟩] := by decide +kernel
  have hdead : ¬ t.Live 3 := by decide +kernel
  refine ⟨hdir, hdead, ?_⟩
  intro h
  exact hdead (h.entries 0 ⟨5, 3⟩ (by simp [hdir])).1

end AssocTable

end BcpFlux.Flow
